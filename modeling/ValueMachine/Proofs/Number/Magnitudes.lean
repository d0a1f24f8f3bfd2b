import ValueMachine.Proofs.Number.Arithmetic
import ValueMachine.Proofs.Number.PlainText

/-!
# Magnitudes and distances of doubles

A number and its negative are rounded alike. So a computed distance that is below a bound tells that
the exact one is, although both have been rounded.

Results:
* `value_rounded_neg`: the negative of a rounded number;
* `value_abs`: the magnitude of a double;
* `le_iff_value_le`: doubles are compared by their values;
* `isRounding_nearest_div`: a quotient with a sign is rounded;
* `abs_sub_lt_of_lt`: a computed distance against the exact one.
-/

namespace ValueMachine.Number

open Float.Model Float.Model.UnpackedFloat

section Magnitudes

variable {x y z : Float} {p q : ℚ}

theorem value_rounded_neg (q : ℚ) : value (rounded (-q)) = -value (rounded q) := by
  have far := beyond_pos
  rcases eq_or_ne q 0 with rfl | ne
  · have zero := value_rounded isFinite_zero
    rw [value_zero] at zero
    rw [neg_zero, zero, neg_zero]
  have sign : signOf (decide (-q < 0)) = -signOf (decide (q < 0)) := by
    rcases lt_or_gt_of_ne ne with negative | positive
    · simp [signOf, negative, negative.le]
    · simp [signOf, positive, positive.le]
  rcases lt_or_ge |q| reach with below | above
  · obtain ⟨k, rounds, -, eq⟩ := rounded_units ne below
    obtain ⟨k', rounds', -, eq'⟩ := rounded_units (neg_ne_zero.mpr ne) (by rwa [abs_neg])
    rw [abs_neg] at rounds' eq'
    rw [eq, eq', sign, rounds.unique rounds', neg_mul]
  · have infinite {q : ℚ} (above : reach ≤ |q|) :
        value (rounded q) = signOf (decide (q < 0)) * beyond := by
      obtain ⟨below, -⟩ | ⟨-, reads⟩ := rounded_spec q
      · exact absurd below (not_lt.mpr above)
      · rw [value, reads, Reading.value]
    rw [infinite above, infinite (by rwa [abs_neg]), sign, neg_mul]

/-- A number whose rounding is below that of a positive one is itself below it. -/
theorem abs_lt_of_abs_rounded_lt (lt : |value (rounded q)| < value (rounded p)) : |q| < p := by
  by_contra large
  rw [not_lt, le_abs] at large
  have bounds := abs_lt.mp lt
  rcases large with up | down
  · exact absurd (rounded_mono up) (not_le.mpr bounds.2)
  · have mono := rounded_mono down
    rw [value_rounded_neg] at mono
    linarith

theorem partsValue_abs {parts : UnpackedFloat} : partsValue parts.abs = |partsValue parts| := by
  match parts with
  | .notANumber => exact abs_zero.symm
  | .infinity .negative => exact ((abs_neg _).trans (abs_of_pos beyond_pos)).symm
  | .infinity .positive => exact (abs_of_pos beyond_pos).symm
  | .zero _ => exact abs_zero.symm
  | .finite .negative m e _ =>
    have size := mul_nonneg (Nat.cast_nonneg m) (zpow_two_pos e).le
    exact ((abs_neg _).trans (abs_of_nonneg size)).symm
  | .finite .positive m e _ =>
    exact (abs_of_nonneg (mul_nonneg (Nat.cast_nonneg m) (zpow_two_pos e).le)).symm

/-- The magnitude of a number. -/
theorem value_abs (number : read x ≠ .nan) : read x.abs ≠ .nan ∧ value x.abs = |value x| := by
  obtain finite | ⟨negative, infinite, size⟩ := finite_or_infinite number
  · have parts := unpack_abs finite
    refine ⟨fun nan => ?_, ?_⟩
    · rw [unpack_eq x.abs, nan] at parts
      obtain ⟨s, own, -⟩ | ⟨s, m, e, pos, own, -⟩ := unpack_cases finite <;> rw [own] at parts <;>
        cases parts
    · rw [← partsValue_unpack, ← partsValue_unpack, parts, partsValue_abs]
  · have parts := unpack_eq x
    rw [infinite] at parts
    have same : x.abs = infinity false := by
      show Float.ofModel (.pack x.toModel.unpack.abs) = _
      rw [parts, ← ofModel_pack_infinity]
      rfl
    have reads := read_infinity false
    rw [same, size, abs_signOf_mul _ beyond_pos.le, reads, value, reads, Reading.value, signOf,
      if_neg Bool.false_ne_true, one_mul]
    exact ⟨Reading.noConfusion, rfl⟩

theorem le_iff_value_le (hx : read x ≠ .nan) (hy : read y ≠ .nan) : x ≤ y ↔ value x ≤ value y := by
  have compared : x ≤ y ↔
      ((UnpackedFloat.compare x.toModel.unpack y.toModel.unpack).any (·.isLE)) = true :=
    decide_eq_true_iff (p := x.toModel ≤ y.toModel)
  rw [compared, compare_parts (partsValid_unpack hx) (partsValid_unpack hy), partsValue_unpack,
    partsValue_unpack, ← compare_le_iff_le]
  exact Ordering.isLE_iff_ne_gt

/-- A quotient with a sign is rounded, whatever the sign of a zero is. -/
theorem isRounding_nearest_div (negative : Bool) (num : ℕ) {den : ℕ} (pos : 0 < den) :
    IsRounding (signOf negative * (num / den)) (nearest negative num den) := by
  rcases Nat.eq_zero_or_pos num with rfl | some
  · have reads : read (nearest negative 0 den) = .finite negative 0 (-1074) := read_zero negative
    have rounding := isRounding_of_isFinite (isFinite_iff.mpr ⟨_, _, _, reads⟩)
    rwa [value_of_finite reads, Nat.cast_zero, zero_mul, ← zero_div (den : ℚ)] at rounding
  · have posQ : (0 : ℚ) < num / den := div_pos (by exact_mod_cast some) (by exact_mod_cast pos)
    have magnitude := abs_eq_natAbs_div (num / den)
    rw [abs_of_pos posQ] at magnitude
    rw [nearest_congr negative pos (Rat.den_pos _) magnitude]
    exact isRounding_nearest negative posQ

/-- A distance that is computed to be below a bound is below it. -/
theorem abs_sub_lt_of_lt (hx : x.isFinite = true) (hy : y.isFinite = true)
    (bound : value z = value (rounded q)) (lt : (x - y).abs < z) : |value x - value y| < q := by
  have difference := isRounding_sub hx hy
  obtain ⟨-, -, below⟩ := (lt_iff_value_lt _ _).mp lt
  rw [(value_abs difference.1).2, difference.2, bound] at below
  exact abs_lt_of_abs_rounded_lt below

end Magnitudes

end ValueMachine.Number
