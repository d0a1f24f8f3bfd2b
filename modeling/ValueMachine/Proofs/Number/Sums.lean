import ValueMachine.Proofs.Number.Shortened
import ValueMachine.Proofs.Number.Signs

/-!
# Exact sums of doubles

A sum that is itself the value of a double is not rounded. So natural numbers up to `2 ^ 53` are
doubles and are added as natural numbers are.

Results:
* `add_of_exact`: a sum that is the value of a double;
* `read_ofNat`, `toInt64_ofNat`: the doubles of natural numbers;
* `ofNat_add`: their sums.
-/

namespace ValueMachine.Number

open Float.Model Float.Model.UnpackedFloat

/-! ## Shifting -/

/-- A multiple of a power of two is shifted without loss. -/
theorem shiftRight_exact (m shift : ℕ) :
    ExtendedMantissa.ofMantissaAndAccuracy (m * 2 ^ shift) .exact >>> shift = ⟨m, false, false⟩ := by
  show shift.repeat ExtendedMantissa.shiftRightOne ⟨m * 2 ^ shift, false, false⟩ = _
  induction shift generalizing m with
  | zero => simp [Nat.repeat]
  | succ shift ih =>
    have twice : m * 2 ^ (shift + 1) = 2 * m * 2 ^ shift := by ring
    rw [Nat.repeat, twice, ih (2 * m), ExtendedMantissa.shiftRightOne]
    simp

/-- The exponent that a nonzero mantissa of a double should have is its own one. -/
theorem IsCanonical.targetExponent_eq {mantissa : ℕ} {exponent : ℤ}
    (canonical : IsCanonical mantissa exponent) (pos : 0 < mantissa) :
    Format.binary64.targetExponent (totalExponent mantissa exponent) = exponent := by
  obtain ⟨small, least, full⟩ := canonical
  rw [twoPow_eq] at small full
  have log_lt : mantissa.log2 < 53 := (Nat.log2_lt pos.ne').mpr small
  show max (((mantissa.log2 : ℤ) + 1 + exponent) - 53) (-1074) = exponent
  rcases full with large | lowest
  · have log_ge : 52 ≤ mantissa.log2 := (Nat.le_log2 pos.ne').mpr large
    omega
  · omega

/-- Numbers of one value have their first digit at one place. -/
theorem totalExponent_mul {m : ℕ} (shift : ℕ) (exponent : ℤ) (pos : 0 < m) :
    totalExponent (m * 2 ^ shift) exponent = totalExponent m (exponent + shift) := by
  have log : (m * 2 ^ shift).log2 = m.log2 + shift := by
    have lower := Nat.log2_self_le pos.ne'
    have upper : m < 2 ^ (m.log2 + 1) := Nat.lt_log2_self
    rw [Nat.log2_eq_iff (by positivity)]
    constructor
    · rw [pow_add]
      exact Nat.mul_le_mul_right _ lower
    · rw [Nat.add_right_comm, pow_add]
      exact Nat.mul_lt_mul_of_pos_right upper (by positivity)
  rw [totalExponent, totalExponent, log]
  push_cast
  ring

section Round

variable {mantissa : ℕ} {exponent : ℤ}

/-- The value of a double is shifted to the double. -/
theorem shiftToTargetExponent_exact (canonical : IsCanonical mantissa exponent) (pos : 0 < mantissa)
    (shift : ℕ) :
    shiftToTargetExponent .binary64 (mantissa * 2 ^ shift) (exponent - shift) .exact =
      (⟨mantissa, false, false⟩, exponent) := by
  have back : exponent - shift + shift = exponent := sub_add_cancel ..
  have count : (exponent - (exponent - shift)).toNat = shift := by omega
  rw [shiftToTargetExponent, totalExponent_mul shift _ pos, back, canonical.targetExponent_eq pos]
  show (ExtendedMantissa.ofMantissaAndAccuracy (mantissa * 2 ^ shift) .exact >>>
    (exponent - (exponent - shift)).toNat, exponent - shift +
      ((exponent - (exponent - shift)).toNat : ℤ)) = _
  rw [count, shiftRight_exact, back]

theorem roundWithAccuracy_exact (sign : Sign) (canonical : IsCanonical mantissa exponent)
    (pos : 0 < mantissa) (shift : ℕ) :
    roundWithAccuracy .binary64 sign (mantissa * 2 ^ shift) (exponent - shift) .exact =
      .finite sign mantissa exponent pos := by
  have again := shiftToTargetExponent_exact canonical pos 0
  rw [pow_zero, mul_one, Nat.cast_zero, sub_zero] at again
  rw [roundWithAccuracy, shiftToTargetExponent_exact canonical pos shift]
  dsimp only [ExtendedMantissa.roundedMantissa, ExtendedMantissa.accuracy,
    Accuracy.roundToNearestEven]
  rw [again]
  exact dif_neg pos.ne'

/-- The value of a double is rounded to the double, however it is given. -/
theorem round_exact (sign : Sign) (canonical : IsCanonical mantissa exponent) (pos : 0 < mantissa)
    {m : ℕ} {e : ℤ} (value : (m : ℚ) * 2 ^ e = mantissa * 2 ^ exponent) :
    UnpackedFloat.round .binary64 sign m e = .finite sign mantissa exponent pos := by
  have two : (2 : ℚ) ≠ 0 := by norm_num
  rcases le_total e exponent with below | above
  · obtain ⟨shift, rfl⟩ : ∃ shift : ℕ, e = exponent - shift :=
      ⟨(exponent - e).toNat, by omega⟩
    have shifted : m = mantissa * 2 ^ shift := by
      rw [zpow_sub₀ two, zpow_natCast] at value
      field_simp at value
      rw [Nat.mul_comm]
      exact_mod_cast value
    have unshifted : (exponent - shift - exponent).toNat = 0 := by omega
    have back : exponent - shift + shift = exponent := sub_add_cancel ..
    rw [UnpackedFloat.round, shifted, totalExponent_mul shift _ pos, back,
      canonical.targetExponent_eq pos]
    show roundWithAccuracy .binary64 sign ((mantissa * 2 ^ shift) <<< (exponent - shift - exponent).toNat)
      (exponent - shift - ((exponent - shift - exponent).toNat : ℤ)) .exact = _
    rw [unshifted, Nat.shiftLeft_zero, Nat.cast_zero, sub_zero]
    exact roundWithAccuracy_exact sign canonical pos shift
  · obtain ⟨shift, rfl⟩ : ∃ shift : ℕ, e = exponent + shift := ⟨(e - exponent).toNat, by omega⟩
    have shifted : mantissa = m * 2 ^ shift := by
      rw [zpow_add₀ two, zpow_natCast] at value
      have pos2 : (0 : ℚ) < 2 ^ exponent := by positivity
      field_simp at value
      exact_mod_cast value.symm
    have some : 0 < m := by
      refine Nat.pos_of_ne_zero fun zero => ?_
      rw [zero, zero_mul] at shifted
      omega
    have count : (exponent + shift - exponent).toNat = shift := by omega
    have exact := roundWithAccuracy_exact sign canonical pos 0
    rw [pow_zero, mul_one, Nat.cast_zero, sub_zero] at exact
    rw [UnpackedFloat.round, ← totalExponent_mul shift _ some, ← shifted,
      canonical.targetExponent_eq pos]
    show roundWithAccuracy .binary64 sign (m <<< (exponent + shift - exponent).toNat)
      (exponent + shift - ((exponent + shift - exponent).toNat : ℤ)) .exact = _
    rw [count, Nat.shiftLeft_eq, ← shifted, add_sub_cancel_right]
    exact exact

end Round

/-! ## Adding -/

/-- A double is that of what the logical model reads. -/
theorem pack_unpack_toModel (x : Float) : Float.ofModel (.pack x.toModel.unpack) = x := by
  obtain ⟨⟨bits, valid⟩⟩ := x
  show Float.ofModel ⟨UInt64.ofBitVec _, _⟩ = _
  congr
  exact pack_unpack valid

variable {x y z : Float} {m₁ m₂ m : ℕ} {e₁ e₂ e : ℤ}

theorem unpack_of_finite_pos (h : read x = .finite false m e) (pos : 0 < m) :
    x.toModel.unpack = .finite .positive m e pos := by
  rw [unpack_eq, h]
  exact dif_neg pos.ne'

/-- A mantissa is aligned to a lesser exponent. -/
theorem shiftLeft_mul_unit (m : ℕ) {e least : ℤ} (le : least ≤ e) :
    ((m <<< (e - least).toNat : ℕ) : ℚ) * 2 ^ least = m * 2 ^ e := by
  obtain ⟨shift, rfl⟩ : ∃ shift : ℕ, e = least + shift := ⟨(e - least).toNat, by omega⟩
  rw [add_sub_cancel_left, Int.toNat_natCast, Nat.shiftLeft_eq, zpow_add₀ two_ne_zero, zpow_natCast]
  push_cast
  ring

/-- A sum of positive doubles that is the value of a double is that double. -/
theorem add_of_exact (hx : read x = .finite false m₁ e₁) (hy : read y = .finite false m₂ e₂)
    (hz : read z = .finite false m e) (some : 0 < m₁) (some' : 0 < m₂)
    (exact : (m : ℚ) * 2 ^ e = m₁ * 2 ^ e₁ + m₂ * 2 ^ e₂) : x + y = z := by
  have pos : 0 < m := by
    have left : (0 : ℚ) < m₁ * 2 ^ e₁ := by positivity
    have right : (0 : ℚ) < m₂ * 2 ^ e₂ := by positivity
    refine Nat.pos_of_ne_zero fun zero => ?_
    rw [zero, Nat.cast_zero, zero_mul] at exact
    linarith
  let least := min e₁ e₂
  let sum := m₁ <<< (e₁ - least).toNat + m₂ <<< (e₂ - least).toNat
  have value : (sum : ℚ) * 2 ^ least = m * 2 ^ e := by
    rw [exact, ← shiftLeft_mul_unit m₁ (min_le_left _ _),
      ← shiftLeft_mul_unit m₂ (min_le_right _ _), ← add_mul]
    exact congrArg (· * _) (Nat.cast_add _ _)
  have positive : 0 < sum := by
    refine Nat.pos_of_ne_zero fun zero => ?_
    rw [zero, Nat.cast_zero, zero_mul] at value
    have : (0 : ℚ) < m * 2 ^ e := by positivity
    linarith
  have added : UnpackedFloat.add .binary64 x.toModel.unpack y.toModel.unpack = z.toModel.unpack := by
    rw [unpack_of_finite_pos hx some, unpack_of_finite_pos hy some', unpack_of_finite_pos hz pos,
      ← round_exact .positive (isCanonical_of_finite hz) pos value]
    show UnpackedFloat.normalize .binary64 (sum : ℤ) least .positive = _
    rw [UnpackedFloat.normalize, Int.compare_eq_gt.mpr (by exact_mod_cast positive)]
    rfl
  rw [← pack_unpack_toModel z, ← added]
  rfl

/-! ## Natural numbers -/

/-- Natural numbers up to `2 ^ 53` have 53 binary digits. -/
theorem exists_mantissa {n : ℕ} (pos : 0 < n) (le : n ≤ twoPow 53) : ∃ mantissa exponent,
    IsCanonical mantissa exponent ∧ 0 < mantissa ∧ exponent ≤ 1 ∧
      (mantissa : ℚ) * 2 ^ exponent = n := by
  rw [twoPow_eq] at le
  rcases le.lt_or_eq with lt | eq
  · have log_lt : n.log2 < 53 := (Nat.log2_lt pos.ne').mpr lt
    obtain ⟨shift, whole⟩ : ∃ shift, n.log2 + shift = 52 := ⟨52 - n.log2, by omega⟩
    have lower := Nat.log2_self_le pos.ne'
    have upper : n < 2 ^ (n.log2 + 1) := Nat.lt_log2_self
    refine ⟨n * 2 ^ shift, -shift, ⟨?_, by omega, .inl ?_⟩, by positivity, by omega, ?_⟩
    · rw [twoPow_eq, show 53 = n.log2 + 1 + shift by omega]
      show n * 2 ^ shift < 2 ^ (n.log2 + 1 + shift)
      rw [pow_add]
      exact Nat.mul_lt_mul_of_pos_right upper (by positivity)
    · rw [twoPow_eq, ← whole]
      show 2 ^ (n.log2 + shift) ≤ n * 2 ^ shift
      rw [pow_add]
      exact Nat.mul_le_mul_right _ lower
    · rw [zpow_neg, zpow_natCast]
      push_cast
      field_simp
  · refine ⟨twoPow 52, 1, ⟨?_, by omega, .inl le_rfl⟩, twoPow_pos 52, le_rfl, ?_⟩
    · rw [twoPow_eq, twoPow_eq]
      norm_num
    · rw [eq, cast_twoPow]
      norm_num

/-- The double of a natural number has its value. -/
theorem read_ofNat {n : ℕ} (pos : 0 < n) (le : n ≤ twoPow 53) : ∃ mantissa exponent,
    0 < mantissa ∧ read (ofNat n) = .finite false mantissa exponent ∧
      (mantissa : ℚ) * 2 ^ exponent = n := by
  obtain ⟨mantissa, exponent, canonical, some, small, value⟩ := exists_mantissa pos le
  have finite : magnitudeBits mantissa exponent < infinityBits := by
    have two52 : twoPow 52 = 4503599627370496 := rfl
    have two53 : twoPow 53 = 9007199254740992 := rfl
    have lt := canonical.small
    rw [two53] at lt
    rw [magnitudeBits, infinityBits, two52]
    omega
  have bits : nearestBits n 1 = magnitudeBits mantissa exponent :=
    nearestBits_of_exact one_pos canonical finite (by rw [value, Nat.cast_one, div_one])
  refine ⟨mantissa, exponent, some, ?_, value⟩
  rw [ofNat, nearest, bits, read_ofMagnitude false canonical finite]

theorem toInt64_ofNat {n : ℕ} (le : n ≤ twoPow 53) : toInt64 (ofNat n) = n := by
  rcases Nat.eq_zero_or_pos n with rfl | pos
  · decide +kernel
  obtain ⟨mantissa, exponent, -, reading, value⟩ := read_ofNat pos le
  have two53 : twoPow 53 = 9007199254740992 := rfl
  have two63 : twoPow 63 = 9223372036854775808 := rfl
  have denQ : (denominator exponent : ℚ) ≠ 0 := by exact_mod_cast (denominator_pos exponent).ne'
  have whole : numerator mantissa exponent = n * denominator exponent := by
    rw [← numerator_div_denominator, div_eq_iff denQ] at value
    exact_mod_cast value
  rw [toInt64, toInt, reading]
  dsimp only
  rw [whole, Nat.mul_div_cancel n (denominator_pos exponent), if_neg Bool.false_ne_true, two63]
  rw [two53] at le
  push_cast
  omega

theorem unpack_ofNat_zero : (ofNat 0).toModel.unpack = .zero .positive := by
  have zero : read (ofNat 0) = .finite false 0 (-1074) := by decide +kernel
  rw [unpack_eq, zero]
  rfl

/-- Zero and a number that is no negative one. -/
theorem ofNat_zero_add {n : ℕ} (le : n ≤ twoPow 53) :
    ofNat 0 + ofNat n = ofNat n ∧ ofNat n + ofNat 0 = ofNat n := by
  have unchanged : UnpackedFloat.add .binary64 (.zero .positive) (ofNat n).toModel.unpack =
      (ofNat n).toModel.unpack ∧
      UnpackedFloat.add .binary64 (ofNat n).toModel.unpack (.zero .positive) =
        (ofNat n).toModel.unpack := by
    rcases Nat.eq_zero_or_pos n with rfl | pos
    · rw [unpack_ofNat_zero]
      exact ⟨rfl, rfl⟩
    · obtain ⟨mantissa, exponent, some, reading, -⟩ := read_ofNat pos le
      rw [unpack_of_finite_pos reading some]
      exact ⟨rfl, rfl⟩
  rw [← unpack_ofNat_zero] at unchanged
  constructor
  · exact (congrArg (fun u => Float.ofModel (.pack u)) unchanged.1).trans (pack_unpack_toModel _)
  · exact (congrArg (fun u => Float.ofModel (.pack u)) unchanged.2).trans (pack_unpack_toModel _)

/-- Natural numbers are added as doubles without loss. -/
theorem ofNat_add {k n : ℕ} (le : k + n ≤ twoPow 53) : ofNat k + ofNat n = ofNat (k + n) := by
  rcases Nat.eq_zero_or_pos k with rfl | pos
  · rw [Nat.zero_add] at le ⊢
    exact (ofNat_zero_add le).1
  rcases Nat.eq_zero_or_pos n with rfl | pos'
  · exact (ofNat_zero_add le).2
  obtain ⟨m₁, e₁, some, reading, value⟩ := read_ofNat pos (by omega)
  obtain ⟨m₂, e₂, some', reading', value'⟩ := read_ofNat pos' (by omega)
  obtain ⟨m, e, -, sum, total⟩ := read_ofNat (by omega : 0 < k + n) le
  refine add_of_exact reading reading' sum some some' ?_
  rw [value, value', total, Nat.cast_add]

end ValueMachine.Number
