import ValueMachine.Proofs.Number.Reading

/-!
# The double nearest to a natural number

Results:
* `nearest_of_whole`: a double with a whole value is the one nearest to it;
* `ofInt_toInt64`: a small whole number is the double of its integer.
-/

namespace ValueMachine.Number

/-! ## Whole values -/

section Whole

variable {mantissa k : Nat} {exponent : Int}

theorem log2_eq_of_twoPow_le {n : Nat} (pos : k ≠ 0) (lower : twoPow n ≤ k)
    (upper : k < twoPow (n + 1)) : k.log2 = n := by
  rw [twoPow_eq] at lower upper
  exact (Nat.log2_eq_iff pos).mpr ⟨lower, upper⟩

/-- The first binary digit of a whole value is that of the mantissa. -/
theorem IsCanonical.log2_eq (canonical : IsCanonical mantissa exponent) (pos : k ≠ 0)
    (value : numerator mantissa exponent = k * denominator exponent) :
    (k.log2 : Int) = exponent + 52 := by
  obtain ⟨small, least, full⟩ := canonical
  rw [numerator, denominator] at value
  rcases Int.le_total 0 exponent with up | down
  · obtain ⟨shift, rfl⟩ := Int.eq_ofNat_of_zero_le up
    have large : twoPow 52 ≤ mantissa := full.resolve_right (by omega)
    rw [show (-(shift : Int)).toNat = 0 by omega, Int.toNat_natCast, show twoPow 0 = 1 from rfl,
      Nat.mul_one] at value
    have log : k.log2 = 52 + shift := by
      apply log2_eq_of_twoPow_le pos
      · rw [← value, twoPow_add]
        exact Nat.mul_le_mul_right _ large
      · rw [← value, show 52 + shift + 1 = 53 + shift by omega, twoPow_add]
        exact Nat.mul_lt_mul_of_pos_right small (twoPow_pos _)
    omega
  · obtain ⟨shift, rfl⟩ : ∃ shift : Nat, exponent = -(shift : Int) := ⟨exponent.natAbs, by omega⟩
    rw [show (-(shift : Int)).toNat = 0 by omega, show (- -(shift : Int)).toNat = shift by omega,
      show twoPow 0 = 1 from rfl, Nat.mul_one] at value
    have shifted : twoPow shift ≤ mantissa := value ▸ Nat.le_mul_of_pos_left _ (Nat.pos_of_ne_zero pos)
    have short : shift < 53 := by
      rw [twoPow_eq] at shifted
      rw [twoPow_eq] at small
      exact (Nat.pow_lt_pow_iff_right (by omega)).mp (shifted.trans_lt small)
    have large : twoPow 52 ≤ mantissa := full.resolve_right (by omega)
    have log : k.log2 = 52 - shift := by
      apply log2_eq_of_twoPow_le pos
      · apply Nat.le_of_mul_le_mul_right _ (twoPow_pos shift)
        rw [← twoPow_add, Nat.sub_add_cancel (by omega), ← value]
        exact large
      · apply Nat.lt_of_mul_lt_mul_right
        rw [← twoPow_add, ← value, show 52 - shift + 1 + shift = 53 by omega]
        exact small
    omega

theorem floorLog2_one (k : Nat) (pos : k ≠ 0) : floorLog2 k 1 = k.log2 := by
  have estimate : (k.log2 : Int) - (Nat.log2 1 : Nat) = k.log2 := by
    rw [show Nat.log2 1 = 0 from rfl, Int.natCast_zero, Int.sub_zero]
  rw [floorLog2, estimate, if_pos]
  rw [Int.toNat_natCast, Nat.one_mul, twoPow_eq]
  exact Nat.le_trans (Nat.log2_self_le pos) (Nat.le_mul_of_pos_right k (twoPow_pos _))

/-- The bits of the double nearest to a whole value. -/
theorem nearestBits_of_whole (canonical : IsCanonical mantissa exponent)
    (value : numerator mantissa exponent = k * denominator exponent)
    (finite : magnitudeBits mantissa exponent < infinityBits) :
    nearestBits k 1 = magnitudeBits mantissa exponent := by
  have ⟨small, least, full⟩ := canonical
  by_cases zero : k = 0
  · subst zero
    rw [Nat.zero_mul, numerator, Nat.mul_eq_zero] at value
    have none : mantissa = 0 := value.resolve_right (twoPow_pos _).ne'
    have lowest : exponent = -1074 := by
      refine full.resolve_left fun le => ?_
      rw [none] at le
      exact absurd le (Nat.not_le.mpr (twoPow_pos 52))
    rw [none, lowest]
    rfl
  · have unit : max (floorLog2 k 1 - 52) (-1074) = exponent := by
      rw [floorLog2_one k zero, canonical.log2_eq zero value]
      omega
    have rounded : roundDiv (k * twoPow (-exponent).toNat) (1 * twoPow exponent.toNat) = mantissa := by
      rw [numerator, denominator] at value
      rw [← value, Nat.one_mul, roundDiv_mul_self _ (twoPow_pos _)]
    rw [nearestBits, if_neg zero, unit]
    dsimp only
    rw [rounded]
    exact Nat.min_eq_left finite.le

end Whole

/-- A double with a whole value is the one nearest to it. -/
theorem nearest_of_whole {x : Float} {negative : Bool} {mantissa k : Nat} {exponent : Int}
    (h : read x = .finite negative mantissa exponent)
    (value : numerator mantissa exponent = k * denominator exponent) :
    nearest negative k 1 = x := by
  rw [nearest, ofMagnitude, nearestBits_of_whole (isCanonical_of_finite h) value (magnitudeBits_lt h),
    ← signBits, ← toBits_of_finite h]
  exact (congrArg Float.ofBits (UInt64.ofNat_toNat ..)).trans (ofBits_toBits x)

/-! ## Small whole numbers -/

/-- A small whole number is the double of its integer, unless it is minus zero. -/
theorem ofInt_toInt64 {x : Float} (whole : isWhole x = true)
    (notMinusZero : ¬(toInt64 x = 0 ∧ isNegative x = true))
    (small : (toInt64 x).natAbs < twoPow 52) : ofInt (toInt64 x) = x := by
  cases reading : read x with
  | nan => rw [isWhole, reading] at whole; cases whole
  | infinite => rw [isWhole, reading] at whole; cases whole
  | finite negative mantissa exponent =>
    have divides : denominator exponent ∣ numerator mantissa exponent := by
      rw [isWhole, reading] at whole
      exact Nat.dvd_mul_right_of_dvd (Nat.dvd_of_mod_eq_zero (of_decide_eq_true whole)) _
    have value := Nat.div_mul_cancel divides
    generalize quotient : numerator mantissa exponent / denominator exponent = k at value
    have clamped : toInt64 x = max (-(twoPow 63 : Int)) (min ((twoPow 63 : Int) - 1)
        (if negative then -(k : Int) else k)) := by
      rw [toInt64, toInt, reading, ← quotient]
    have two52 : twoPow 52 = 4503599627370496 := rfl
    have two63 : twoPow 63 = 9223372036854775808 := rfl
    have own : toInt64 x = if negative then -(k : Int) else k := by
      rw [two63] at clamped
      rw [two52] at small
      cases negative <;> simp only [if_true, if_false, Bool.false_eq_true] at clamped ⊢ <;> omega
    have isNegative_eq : isNegative x = negative := by rw [isNegative, reading]
    have size : (toInt64 x).natAbs = k := by
      rw [own]
      cases negative <;> simp
    have sign : decide (toInt64 x < 0) = negative := by
      rw [isNegative_eq] at notMinusZero
      cases negative with
      | false => simp [own]
      | true => simp [own] at notMinusZero ⊢; omega
    rw [ofInt, sign, size]
    exact nearest_of_whole reading value.symm

end ValueMachine.Number
