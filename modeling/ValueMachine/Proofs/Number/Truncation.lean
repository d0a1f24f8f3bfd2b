import ValueMachine.Number.Rounding
import ValueMachine.Proofs.Number.Arithmetic

/-!
# Integer parts

Converting a number to an integer drops what is behind the point. An infinity stands for a number
that is out of reach, so it becomes the integer at the end of the range, as all numbers do that are
too large.

Results:
* `toInt64_eq`: which integer of 64 bits a number is converted to;
* `toCount_eq_towardZero`: which count.
-/

namespace ValueMachine.Number

/-- The next integer on the way to zero. -/
def towardZero (q : ℚ) : ℤ := if q < 0 then ⌈q⌉ else ⌊q⌋

theorem towardZero_intCast (i : ℤ) : towardZero i = i := by
  rw [towardZero, Int.ceil_intCast, Int.floor_intCast, ite_self]

theorem towardZero_of_nonneg {q : ℚ} (nonneg : 0 ≤ q) : towardZero q = ⌊q⌋ :=
  if_neg nonneg.not_gt

/-- The integer part of a quotient with a sign. -/
theorem towardZero_div (negative : Bool) (num den : ℕ) :
    towardZero (signOf negative * (num / den)) =
      if negative then -((num / den : ℕ) : ℤ) else (num / den : ℕ) := by
  have nonneg : (0 : ℚ) ≤ num / den := by positivity
  cases negative with
  | false =>
    rw [signOf, if_neg Bool.false_ne_true, one_mul, towardZero_of_nonneg nonneg,
      Rat.floor_natCast_div_natCast, if_neg Bool.false_ne_true]
    rfl
  | true =>
    rw [signOf, if_pos rfl, neg_one_mul, if_pos rfl, towardZero]
    split
    · rw [Int.ceil_neg, Rat.floor_natCast_div_natCast]
      rfl
    · next zero =>
      have none : (num : ℚ) / den = 0 := by linarith
      rw [none, neg_zero, Int.floor_zero, ← Nat.floor_div_eq_div (K := ℚ), none, Nat.floor_zero]
      rfl

section Conversions

variable {x : Float}

/-- A number is converted to its integer part, or to the end of the range if that is beyond it. -/
theorem toInt64_eq (x : Float) :
    toInt64 x = max (-2 ^ 63) (min (2 ^ 63 - 1) (towardZero (value x))) := by
  obtain ⟨top, eq, far⟩ : ∃ top : ℤ, beyond = top ∧ 2 ^ 63 ≤ top :=
    ⟨2 ^ 1024, (Int.cast_pow 2 1024).symm, pow_le_pow_right₀ (by decide) (by decide)⟩
  have two63 : (twoPow 63 : ℤ) = 2 ^ 63 := rfl
  rw [toInt64, toInt, value]
  cases read x with
  | nan => simp [Reading.value, towardZero]
  | infinite negative =>
    have whole : signOf negative * beyond = ((if negative then -top else top : ℤ) : ℚ) := by
      cases negative <;> simp [signOf, eq]
    rw [Reading.value, whole, towardZero_intCast, two63]
    dsimp only
    cases negative <;> simp only [if_true, if_false, Bool.false_eq_true] <;> omega
  | finite negative m e =>
    rw [Reading.value, ← numerator_div_denominator, towardZero_div, two63]

/-- A number that is not negative is converted to its integer part, or to the greatest count. -/
theorem toCount_eq_towardZero (number : read x ≠ .nan) (nonneg : 0 ≤ value x) :
    (toCount x : ℤ) = min (2 ^ 64 - 1) (towardZero (value x)) := by
  rw [toCount_eq_floor number nonneg, towardZero_of_nonneg nonneg, Nat.cast_min,
    Int.natCast_floor_eq_floor nonneg]
  rfl

end Conversions

end ValueMachine.Number
