import Mathlib
import ValueMachine.Proofs.Number.Digits
import ValueMachine.Number.Exact

/-!
# Rounded quotients as rationals

A quotient of natural numbers is scaled by a power of its base, rounded to the nearest integer and
compared with powers. Here all three are statements about the rational number that the quotient is.

Results:
* `roundDiv_eq_iff`: what a quotient is rounded to;
* `div_mul_twoPow`, `div_mul_tenPow`: a quotient scaled by a power of any sign;
* `floorLog2_eq`, `floorLog10_eq`: the logarithms of a quotient.
-/

namespace ValueMachine.Number

/-! ## Rounding to an integer -/

/-- The natural number is nearest to `q`, and of two that are it is the even one. -/
def RoundsTo (q : ℚ) (k : ℕ) : Prop := |q - k| < 1 / 2 ∨ |q - k| = 1 / 2 ∧ k % 2 = 0

theorem RoundsTo.within {q : ℚ} {k : ℕ} (h : RoundsTo q k) : |q - k| ≤ 1 / 2 := by
  rcases h with lt | ⟨eq, _⟩
  · exact lt.le
  · exact eq.le

/-- Rounding does not pass an integer from below. -/
theorem RoundsTo.le_of_le {q : ℚ} {k n : ℕ} (h : RoundsTo q k) (le : q ≤ n) : k ≤ n := by
  have near := abs_le.mp h.within
  have lt : (k : ℚ) < (n + 1 : ℕ) := by push_cast; linarith
  exact Nat.le_of_lt_succ (by exact_mod_cast lt)

/-- Rounding does not pass an integer from above. -/
theorem RoundsTo.le_of_ge {q : ℚ} {k n : ℕ} (h : RoundsTo q k) (ge : n ≤ q) : n ≤ k := by
  have near := abs_le.mp h.within
  have lt : (n : ℚ) < (k + 1 : ℕ) := by push_cast; linarith
  exact Nat.le_of_lt_succ (by exact_mod_cast lt)

theorem RoundsTo.unique {q : ℚ} {k k' : ℕ} (h : RoundsTo q k) (h' : RoundsTo q k') : k = k' := by
  wlog le : k ≤ k' generalizing k k'
  · exact (this h' h (by omega)).symm
  by_contra ne
  have apart : (k : ℚ) + 1 ≤ k' := by exact_mod_cast (show k + 1 ≤ k' by omega)
  have near := abs_le.mp h.within
  have near' := abs_le.mp h'.within
  -- neighbours are half a unit away, and only one of them is even
  have next : k' = k + 1 := by
    have : (k' : ℚ) = (k + 1 : ℕ) := by push_cast; linarith
    exact_mod_cast this
  have middle : q - k = 1 / 2 := by linarith
  have middle' : q - k' = -(1 / 2) := by linarith
  rw [RoundsTo, middle] at h
  rw [RoundsTo, middle'] at h'
  norm_num at h h'
  omega

theorem roundsTo_roundDiv (num : ℕ) {den : ℕ} (pos : 0 < den) :
    RoundsTo (num / den) (roundDiv num den) := by
  have posQ : (0 : ℚ) < den := by exact_mod_cast pos
  have split : (num : ℚ) / den = (num / den : ℕ) + (num % den : ℕ) / den := by
    have whole : (num : ℚ) = (num / den : ℕ) * den + (num % den : ℕ) := by
      exact_mod_cast (Nat.div_add_mod' num den).symm
    rw [← mul_div_cancel_right₀ ((num / den : ℕ) : ℚ) posQ.ne', ← add_div, ← whole]
  have nonneg : (0 : ℚ) ≤ (num % den : ℕ) / den := by positivity
  have below : ((num % den : ℕ) : ℚ) / den < 1 := by
    rw [div_lt_one posQ]
    exact_mod_cast Nat.mod_lt num pos
  rw [split, roundDiv]
  generalize quotient_eq : num / den = quotient
  generalize rest_eq : num % den = rest at nonneg below
  by_cases low : 2 * rest < den
  · have small : (rest : ℚ) / den < 1 / 2 := by
      rw [div_lt_iff₀ posQ]
      have : (2 * rest : ℚ) < den := by exact_mod_cast low
      linarith
    rw [if_pos low]
    left
    rw [abs_lt]
    constructor <;> linarith
  by_cases high : den < 2 * rest
  · have large : 1 / 2 < (rest : ℚ) / den := by
      rw [lt_div_iff₀ posQ]
      have : (den : ℚ) < 2 * rest := by exact_mod_cast high
      linarith
    rw [if_neg low, if_pos high]
    left
    push_cast
    rw [abs_lt]
    constructor <;> linarith
  · have half : (rest : ℚ) / den = 1 / 2 := by
      rw [div_eq_iff posQ.ne']
      have : (den : ℚ) = 2 * rest := by exact_mod_cast (show den = 2 * rest by omega)
      linarith
    rw [if_neg low, if_neg high, half]
    right
    rcases Nat.mod_two_eq_zero_or_one quotient with even | odd
    · rw [even]
      refine ⟨?_, by omega⟩
      norm_num
    · rw [odd]
      refine ⟨?_, by omega⟩
      push_cast
      norm_num

theorem roundDiv_eq_iff {num den k : ℕ} (pos : 0 < den) :
    roundDiv num den = k ↔ RoundsTo (num / den) k :=
  ⟨fun eq => eq ▸ roundsTo_roundDiv num pos, (roundsTo_roundDiv num pos).unique⟩

theorem exists_roundsTo {q : ℚ} (nonneg : 0 ≤ q) : ∃ k, RoundsTo q k := by
  have whole : ((q.num.toNat : ℕ) : ℚ) / q.den = q := by
    have num_eq : ((q.num.toNat : ℕ) : ℚ) = q.num := by
      exact_mod_cast Int.toNat_of_nonneg (Rat.num_nonneg.mpr nonneg)
    rw [num_eq, Rat.num_div_den]
  exact ⟨_, whole ▸ roundsTo_roundDiv q.num.toNat q.den_pos⟩

/-- Two integers are one apart, so a number is not near to both. -/
theorem one_le_abs_add_abs (q : ℚ) {k n : ℕ} (ne : n ≠ k) : 1 ≤ |q - k| + |q - n| := by
  have apart : 1 ≤ |(k : ℚ) - n| := by
    have : 1 ≤ |(k : ℤ) - n| := Int.one_le_abs (by omega)
    exact_mod_cast this
  have triangle : |(k : ℚ) - n| ≤ |q - k| + |q - n| := by
    rw [abs_sub_comm q k]
    exact abs_sub_le _ _ _
  exact apart.trans triangle

/-- No integer is nearer than the one that a number is rounded to. -/
theorem RoundsTo.nearest {q : ℚ} {k : ℕ} (h : RoundsTo q k) (n : ℕ) : |q - k| ≤ |q - n| := by
  by_cases same : n = k
  · rw [same]
  · linarith [h.within, one_le_abs_add_abs q same]

/-- Another integer is as near only if the number is half-way between two. -/
theorem RoundsTo.even_of_tie {q : ℚ} {k n : ℕ} (h : RoundsTo q k) (ne : n ≠ k)
    (tie : |q - k| = |q - n|) : k % 2 = 0 := by
  rcases h with near | ⟨-, even⟩
  · linarith [one_le_abs_add_abs q ne]
  · exact even

/-- A number that is as near is rounded alike. -/
theorem RoundsTo.of_abs_le {q q' : ℚ} {k : ℕ} (h : RoundsTo q k) (le : |q' - k| ≤ |q - k|) :
    RoundsTo q' k := by
  rcases h with lt | ⟨eq, even⟩
  · exact .inl (le.trans_lt lt)
  · rw [eq] at le
    exact le.lt_or_eq.imp_right fun half => ⟨half, even⟩

/-! ## Powers of any sign -/

theorem cast_twoPow (n : ℕ) : ((twoPow n : ℕ) : ℚ) = 2 ^ n := by
  rw [twoPow_eq]
  exact Nat.cast_pow 2 n

theorem cast_tenPow (n : ℕ) : ((tenPow n : ℕ) : ℚ) = 10 ^ n := Nat.cast_pow 10 n

theorem zpow_toNat_div {base : ℚ} (ne : base ≠ 0) (shift : ℤ) :
    base ^ shift.toNat / base ^ (-shift).toNat = base ^ shift := by
  rw [← zpow_natCast, ← zpow_natCast, ← zpow_sub₀ ne]
  congr 1
  omega

/-- A quotient scaled by a power of two. -/
theorem div_mul_twoPow (num den : ℕ) (shift : ℤ) :
    ((num * twoPow shift.toNat : ℕ) : ℚ) / (den * twoPow (-shift).toNat : ℕ) =
      num / den * 2 ^ shift := by
  push_cast
  rw [cast_twoPow, cast_twoPow, mul_div_mul_comm, zpow_toNat_div two_ne_zero]

/-- A quotient scaled by a power of ten. -/
theorem div_mul_tenPow (num den : ℕ) (shift : ℤ) :
    ((num * tenPow shift.toNat : ℕ) : ℚ) / (den * tenPow (-shift).toNat : ℕ) =
      num / den * 10 ^ shift := by
  rw [Nat.cast_mul, Nat.cast_mul, cast_tenPow, cast_tenPow, mul_div_mul_comm,
    zpow_toNat_div (by norm_num)]

/-! ## Logarithms -/

theorem log_eq {base : ℕ} (one_lt : 1 < base) {q : ℚ} {e : ℤ} (lower : (base : ℚ) ^ e ≤ q)
    (upper : q < (base : ℚ) ^ (e + 1)) : Int.log base q = e := by
  have pos : 0 < q := (zpow_pos (by exact_mod_cast (by omega : 0 < base)) e).trans_le lower
  have le := (Int.zpow_le_iff_le_log one_lt pos).mp lower
  have lt := (Int.lt_zpow_iff_log_lt one_lt pos).mp upper
  omega

theorem log2_bounds {n : ℕ} (pos : 0 < n) :
    (2 : ℚ) ^ (n.log2 : ℤ) ≤ n ∧ (n : ℚ) < 2 ^ (n.log2 + 1 : ℤ) := by
  constructor
  · rw [zpow_natCast]
    exact_mod_cast Nat.log2_self_le pos.ne'
  · exact_mod_cast @Nat.lt_log2_self n

/-- A quotient is compared with a power of two without dividing. -/
theorem twoPow_le_div_iff {num den : ℕ} (pos : 0 < num) (pos' : 0 < den) (e : ℤ) :
    den * twoPow e.toNat ≤ num * twoPow (-e).toNat ↔ (2 : ℚ) ^ e ≤ num / den := by
  have numQ : (0 : ℚ) < num := by exact_mod_cast pos
  have denQ : (0 : ℚ) < den := by exact_mod_cast pos'
  have scaledQ : (0 : ℚ) < (num * twoPow (-e).toNat : ℕ) := by
    exact_mod_cast Nat.mul_pos pos (twoPow_pos _)
  rw [← @Nat.cast_le ℚ, ← div_le_one scaledQ, div_mul_twoPow, le_div_iff₀ denQ,
    div_mul_eq_mul_div, div_le_one numQ, mul_comm]

theorem floorLog2_eq {num den : ℕ} (pos : 0 < num) (pos' : 0 < den) :
    floorLog2 num den = Int.log 2 (num / den : ℚ) := by
  have posQ : (0 : ℚ) < den := by exact_mod_cast pos'
  have test := twoPow_le_div_iff pos pos' (num.log2 - den.log2)
  obtain ⟨lower, upper⟩ := log2_bounds pos
  obtain ⟨lower', upper'⟩ := log2_bounds pos'
  rw [floorLog2]
  generalize (num.log2 : ℤ) = a at lower upper test
  generalize (den.log2 : ℤ) = b at lower' upper' test
  have above : (2 : ℚ) ^ (a - b - 1) ≤ num / den := by
    rw [le_div_iff₀ posQ]
    calc (2 : ℚ) ^ (a - b - 1) * den ≤ 2 ^ (a - b - 1) * 2 ^ (b + 1) := by gcongr
      _ = 2 ^ a := by rw [← zpow_add₀ two_ne_zero]; congr 1; omega
      _ ≤ num := lower
  have below : (num : ℚ) / den < 2 ^ (a - b + 1) := by
    rw [div_lt_iff₀ posQ]
    calc (num : ℚ) < 2 ^ (a + 1) := upper
      _ = 2 ^ (a - b + 1) * 2 ^ b := by rw [← zpow_add₀ two_ne_zero]; congr 1; omega
      _ ≤ 2 ^ (a - b + 1) * den := by gcongr
  by_cases le : den * twoPow (a - b).toNat ≤ num * twoPow (-(a - b)).toNat
  · rw [if_pos le]
    exact (log_eq one_lt_two (by exact_mod_cast test.mp le) (by exact_mod_cast below)).symm
  · rw [if_neg le]
    refine (log_eq one_lt_two (by exact_mod_cast above) ?_).symm
    rw [sub_add_cancel]
    exact_mod_cast not_le.mp (mt test.mpr le)

/-- The number of digits is one more than the logarithm. -/
theorem digitCount_bounds {n : ℕ} (pos : 0 < n) :
    (10 : ℚ) ^ ((digitCount n : ℤ) - 1) ≤ n ∧ n + 1 ≤ (10 : ℚ) ^ (digitCount n : ℤ) := by
  have some : 0 < digitCount n := List.length_pos_of_ne_nil (significantDigits_ne_nil pos.ne')
  have lower : ¬n < 10 ^ (digitCount n - 1) := by
    rw [← digitCount_le_iff]
    omega
  have upper : n < 10 ^ digitCount n := (digitCount_le_iff n _).mp le_rfl
  have cast : ((digitCount n : ℤ) - 1) = (digitCount n - 1 : ℕ) := by omega
  rw [cast, zpow_natCast, zpow_natCast]
  constructor
  · exact_mod_cast not_lt.mp lower
  · exact_mod_cast upper

theorem floorLog10_eq {num den : ℕ} (pos : 0 < num) (pos' : 0 < den) :
    floorLog10 num den = Int.log 10 (num / den : ℚ) := by
  have posQ : (0 : ℚ) < num := by exact_mod_cast pos
  have posQ' : (0 : ℚ) < den := by exact_mod_cast pos'
  rw [floorLog10]
  by_cases whole : den ≤ num
  · rw [if_pos whole]
    obtain ⟨lower, upper⟩ := digitCount_bounds (Nat.div_pos whole pos')
    have below : ((num / den : ℕ) : ℚ) ≤ num / den := Nat.cast_div_le
    have above : (num : ℚ) / den < (num / den : ℕ) + 1 := by
      rw [div_lt_iff₀ posQ']
      exact_mod_cast Nat.lt_mul_of_div_lt (Nat.lt_succ_self _) pos'
    refine (log_eq (by norm_num) ?_ ?_).symm
    · exact_mod_cast lower.trans below
    · rw [sub_add_cancel]
      exact_mod_cast above.trans_le upper
  · rw [if_neg whole]
    -- the reciprocal lies above the rounded quotient, by one at most
    have some : 0 < (den - 1) / num := Nat.div_pos (by omega) pos
    obtain ⟨lower, upper⟩ := digitCount_bounds some
    have below : (((den - 1) / num : ℕ) : ℚ) < den / num := by
      rw [lt_div_iff₀ posQ]
      have := Nat.div_mul_le_self (den - 1) num
      exact_mod_cast (show (den - 1) / num * num < den by omega)
    have above : (den : ℚ) / num ≤ ((den - 1) / num : ℕ) + 1 := by
      rw [div_le_iff₀ posQ]
      have := Nat.lt_mul_of_div_lt (Nat.lt_succ_self ((den - 1) / num)) pos
      exact_mod_cast (show den ≤ ((den - 1) / num + 1) * num by
        simp only [Nat.succ_eq_add_one] at this; omega)
    have inverse : (num : ℚ) / den = ((den : ℚ) / num)⁻¹ := (inv_div _ _).symm
    have posInverse : (0 : ℚ) < den / num := by positivity
    refine (log_eq (by norm_num) ?_ ?_).symm
    · rw [inverse, zpow_neg]
      exact inv_anti₀ posInverse (by exact_mod_cast above.trans upper)
    · rw [inverse, show -(digitCount ((den - 1) / num) : ℤ) + 1 =
        -((digitCount ((den - 1) / num) : ℤ) - 1) by ring, zpow_neg]
      exact inv_strictAnti₀ (by positivity) (by exact_mod_cast lower.trans_lt below)

end ValueMachine.Number
