import ValueMachine.Proofs.Number.Rounding

/-!
# Significant digits

A positive number rounded to significant digits is a decimal of so many digits, and no other decimal
of so many digits is nearer to the number.

Results:
* `significant_eq`: the digits and the exponent;
* `abs_sub_amount_le_half`: the digits are within half a unit of the last one;
* `abs_sub_amount_le`: no decimal of as many digits is nearer;
* `scaled_eq_digits`: rounding to the places that the digits take gives the digits.
-/

namespace ValueMachine.Number

/-- The number that a scientific form with digits of the given precision stands for. -/
def Scientific.amount (s : Scientific) (precision : ℕ) : ℚ :=
  s.digits * 10 ^ (s.exponent - ((precision : ℤ) - 1))

theorem zpow_ten_pos (e : ℤ) : (0 : ℚ) < 10 ^ e := zpow_pos (by norm_num) e

theorem zpow_ten_add (d e : ℤ) : (10 : ℚ) ^ (d + e) = 10 ^ d * 10 ^ e := zpow_add₀ (by norm_num) d e

section Significant

variable {num den precision : ℕ}

/-- A positive number, scaled to have the given number of digits before the point. -/
theorem scaled_bounds {q : ℚ} (pos : 0 < q) (precision : ℕ) :
    (10 : ℚ) ^ ((precision : ℤ) - 1) ≤ q * 10 ^ ((precision : ℤ) - 1 - Int.log 10 q) ∧
      q * 10 ^ ((precision : ℤ) - 1 - Int.log 10 q) < (10 : ℚ) ^ (precision : ℤ) := by
  have lower : (10 : ℚ) ^ Int.log 10 q ≤ q := by
    exact_mod_cast Int.zpow_log_le_self (by norm_num) pos
  have upper : q < 10 ^ (Int.log 10 q + 1) := by
    exact_mod_cast Int.lt_zpow_succ_log_self (by norm_num) q
  have posP := zpow_ten_pos ((precision : ℤ) - 1 - Int.log 10 q)
  constructor
  · calc (10 : ℚ) ^ ((precision : ℤ) - 1)
        = 10 ^ Int.log 10 q * 10 ^ ((precision : ℤ) - 1 - Int.log 10 q) := by
          rw [← zpow_ten_add]; congr 1; ring
      _ ≤ _ := mul_le_mul_of_nonneg_right lower posP.le
  · calc q * 10 ^ ((precision : ℤ) - 1 - Int.log 10 q)
        < 10 ^ (Int.log 10 q + 1) * 10 ^ ((precision : ℤ) - 1 - Int.log 10 q) :=
          mul_lt_mul_of_pos_right upper posP
      _ = 10 ^ (precision : ℤ) := by rw [← zpow_ten_add]; congr 1; ring

theorem exists_rounded (num den precision : ℕ) :
    ∃ k, RoundsTo (num / den * 10 ^ ((precision : ℤ) - 1 - Int.log 10 (num / den : ℚ))) k :=
  exists_roundsTo (mul_nonneg (by positivity) (zpow_ten_pos _).le)

/-- The digits are those of the rounded number, with one digit less when it is a power of ten. -/
theorem significant_eq (pos : 0 < num) (pos' : 0 < den) {k : ℕ}
    (rounds : RoundsTo (num / den * 10 ^ ((precision : ℤ) - 1 - Int.log 10 (num / den : ℚ))) k) :
    significant num den precision =
      if k = tenPow precision then ⟨tenPow (precision - 1), Int.log 10 (num / den : ℚ) + 1⟩
      else ⟨k, Int.log 10 (num / den : ℚ)⟩ := by
  rw [← div_mul_tenPow, ← roundDiv_eq_iff (Nat.mul_pos pos' (tenPow_pos _))] at rounds
  rw [significant, floorLog10_eq pos pos', rounds]

theorem rounded_bounds (pos : 0 < num) (pos' : 0 < den) (some : 0 < precision) {k : ℕ}
    (rounds : RoundsTo (num / den * 10 ^ ((precision : ℤ) - 1 - Int.log 10 (num / den : ℚ))) k) :
    tenPow (precision - 1) ≤ k ∧ k ≤ tenPow precision := by
  have posQ : (0 : ℚ) < num / den := div_pos (by exact_mod_cast pos) (by exact_mod_cast pos')
  obtain ⟨lower, upper⟩ := scaled_bounds posQ precision
  constructor
  · apply rounds.le_of_ge
    rw [cast_tenPow, ← zpow_natCast, show ((precision - 1 : ℕ) : ℤ) = (precision : ℤ) - 1 by omega]
    exact lower
  · apply rounds.le_of_le
    rw [cast_tenPow, ← zpow_natCast]
    exact upper.le

/-- There are as many digits as the precision asks for. -/
theorem digits_bounds (pos : 0 < num) (pos' : 0 < den) (some : 0 < precision) :
    tenPow (precision - 1) ≤ (significant num den precision).digits ∧
      (significant num den precision).digits < tenPow precision := by
  obtain ⟨r, rounds⟩ := exists_rounded num den precision
  obtain ⟨lower, upper⟩ := rounded_bounds pos pos' some rounds
  rw [significant_eq pos pos' rounds]
  split
  · exact ⟨le_rfl, Nat.pow_lt_pow_right (by omega) (by omega)⟩
  · next other => exact ⟨lower, Nat.lt_of_le_of_ne upper other⟩

/-- The amount is the rounded number, whatever it is. -/
theorem amount_significant (pos : 0 < num) (pos' : 0 < den) (some : 0 < precision) {k : ℕ}
    (rounds : RoundsTo (num / den * 10 ^ ((precision : ℤ) - 1 - Int.log 10 (num / den : ℚ))) k) :
    (significant num den precision).amount precision =
      k * 10 ^ (Int.log 10 (num / den : ℚ) - ((precision : ℤ) - 1)) := by
  rw [significant_eq pos pos' rounds, Scientific.amount]
  split
  · next carry =>
    have cast : ((precision - 1 : ℕ) : ℤ) = (precision : ℤ) - 1 := by omega
    rw [carry, cast_tenPow, cast_tenPow, ← zpow_natCast, ← zpow_natCast, ← zpow_ten_add,
      ← zpow_ten_add, cast]
    congr 1
    ring
  · rfl

/-- A distance, measured in a power of ten. -/
theorem abs_sub_mul_zpow (q : ℚ) (n : ℕ) (unit : ℤ) :
    |q - n * 10 ^ unit| = |q * 10 ^ (-unit) - n| * 10 ^ unit := by
  have pos := zpow_ten_pos unit
  rw [← abs_of_pos pos, ← abs_mul, abs_of_pos pos, sub_mul, mul_assoc, ← zpow_ten_add,
    neg_add_cancel, zpow_zero, mul_one]

/-- Rounding changes a number by half a unit of the last digit at most. -/
theorem abs_sub_amount_le_half (pos : 0 < num) (pos' : 0 < den) (some : 0 < precision) :
    |(num / den : ℚ) - (significant num den precision).amount precision| ≤
      10 ^ (Int.log 10 (num / den : ℚ) - ((precision : ℤ) - 1)) / 2 := by
  obtain ⟨r, rounds⟩ := exists_rounded num den precision
  have near := rounds.within
  rw [amount_significant pos pos' some rounds, abs_sub_mul_zpow, neg_sub]
  refine (mul_le_mul_of_nonneg_right near (zpow_ten_pos _).le).trans_eq ?_
  ring

/-- No decimal of as many digits is nearer to the number. -/
theorem abs_sub_amount_le (pos : 0 < num) (pos' : 0 < den) (some : 0 < precision) {d : ℕ} (k : ℤ)
    (few : d < tenPow precision) :
    |(num / den : ℚ) - (significant num den precision).amount precision| ≤
      |(num / den : ℚ) - d * 10 ^ k| := by
  have posQ : (0 : ℚ) < num / den := div_pos (by exact_mod_cast pos) (by exact_mod_cast pos')
  generalize log : Int.log 10 (num / den : ℚ) = e
  have lower : (10 : ℚ) ^ e ≤ num / den := by
    rw [← log]
    exact_mod_cast Int.zpow_log_le_self (by norm_num) posQ
  obtain ⟨r, rounds⟩ := exists_rounded num den precision
  have amount := amount_significant pos pos' some rounds
  rw [log] at rounds amount
  -- the rounded number is a multiple of this unit, and no other multiple is nearer
  have multiple (n : ℕ) : |(num / den : ℚ) - (significant num den precision).amount precision| ≤
      |(num / den : ℚ) - n * 10 ^ (e - ((precision : ℤ) - 1))| := by
    rw [amount, abs_sub_mul_zpow, abs_sub_mul_zpow, neg_sub]
    exact mul_le_mul_of_nonneg_right (rounds.nearest n) (zpow_ten_pos _).le
  by_cases high : (10 : ℚ) ^ e ≤ d * 10 ^ k
  · have coarse : e - ((precision : ℤ) - 1) ≤ k := by
      have lt : (10 : ℚ) ^ e < 10 ^ ((precision : ℤ) + k) := by
        refine high.trans_lt ?_
        rw [zpow_ten_add, zpow_natCast, ← cast_tenPow]
        exact mul_lt_mul_of_pos_right (by exact_mod_cast few) (zpow_ten_pos k)
      have := (zpow_lt_zpow_iff_right₀ (by norm_num)).mp lt
      omega
    have whole : (d : ℚ) * 10 ^ k = (d * tenPow (k - (e - ((precision : ℤ) - 1))).toNat : ℕ) *
        10 ^ (e - ((precision : ℤ) - 1)) := by
      rw [Nat.cast_mul, cast_tenPow, ← zpow_natCast, mul_assoc, ← zpow_ten_add]
      congr 2
      omega
    rw [whole]
    exact multiple _
  · -- the power of ten below the number lies between it and the decimal
    have power :
        (10 : ℚ) ^ e = (tenPow (precision - 1) : ℕ) * 10 ^ (e - ((precision : ℤ) - 1)) := by
      rw [cast_tenPow, ← zpow_natCast, ← zpow_ten_add]
      congr 1
      omega
    refine (multiple (tenPow (precision - 1))).trans ?_
    rw [← power, abs_of_nonneg (by linarith), abs_of_nonneg (by linarith)]
    linarith

/-- A decimal with as many digits is its own rounded number. -/
theorem amount_of_exact (pos : 0 < num) (pos' : 0 < den) (some : 0 < precision) {d : ℕ} {k : ℤ}
    (few : d < tenPow precision) (exact : (num / den : ℚ) = d * 10 ^ k) :
    (significant num den precision).amount precision = num / den := by
  have le := abs_sub_amount_le pos pos' some k few
  rw [exact, sub_self, abs_zero] at le
  rw [exact]
  exact (sub_eq_zero.mp (abs_nonpos_iff.mp le)).symm

/-- Where the digits end after the point, they are the number rounded to so many places. -/
theorem scaled_eq_digits (pos : 0 < num) (pos' : 0 < den) (some : 0 < precision)
    (places : (significant num den precision).exponent < precision) :
    scaled num den ((precision : ℤ) - 1 - (significant num den precision).exponent).toNat =
      (significant num den precision).digits := by
  obtain ⟨r, rounds⟩ := exists_rounded num den precision
  have digits := significant_eq pos pos' rounds
  generalize Int.log 10 (num / den : ℚ) = e at rounds digits
  have cast (n : ℕ) : ((num * tenPow n : ℕ) : ℚ) / den = num / den * 10 ^ (n : ℤ) := by
    rw [Nat.cast_mul, cast_tenPow, zpow_natCast]
    ring
  rw [scaled, roundDiv_eq_iff pos', cast]
  rw [digits] at places ⊢
  split at places
  · next carry =>
    -- with one place less the unit is ten times as large, and the distance a tenth of what it was
    have within := rounds.within
    have less : (((precision : ℤ) - 1 - (e + 1)).toNat : ℤ) = (precision : ℤ) - 1 - e + -1 := by
      dsimp only at places
      omega
    have power : ((tenPow (precision - 1) : ℕ) : ℚ) = (r : ℚ) / 10 := by
      rw [carry, cast_tenPow, cast_tenPow, eq_div_iff (by norm_num), ← pow_succ]
      congr 1
      omega
    rw [if_pos carry, less, zpow_ten_add, ← mul_assoc, zpow_neg_one, ← div_eq_mul_inv]
    left
    rw [power, ← sub_div, abs_div, abs_of_pos (by norm_num : (0 : ℚ) < 10)]
    linarith
  · next plain =>
    rw [if_neg plain, show (((precision : ℤ) - 1 - e).toNat : ℤ) = (precision : ℤ) - 1 - e by
      dsimp only at places; omega]
    exact rounds

end Significant

end ValueMachine.Number
