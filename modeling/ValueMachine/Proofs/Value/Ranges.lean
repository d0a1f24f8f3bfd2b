import ValueMachine.Proofs.Number.Arithmetic
import ValueMachine.Proofs.Value.NewArrays
import ValueMachine.Proofs.Value.NumbersThroughTexts
import ValueMachine.Proofs.Value.Statuses

/-!
# Ranges

The numbers of a range are counted by a difference and a quotient, and made by a product and a sum.
Each of the four is rounded. So the count can be off by one, the last number of a range can be its
end, and a number before the end can be missing. Where start, end and step are multiples of one
power of two that are not too large, only the quotient is rounded, and never past an integer; then a
range has all the numbers before its end and no other.

Results:
* `IsRange.rangeCount_near`: the count and the way in steps;
* `IsRange.not_precedes`: the numbers of a range do not go back;
* `IsAligned.precedes_iff_lt`: which of them are before the end;
* `range_counts`: what a range is.
-/

namespace ValueMachine

open Number

/-! ## Directions -/

/-- A number stands strictly before another one in the direction of a step. -/
def Value.Precedes (step x y : Float) : Prop := if 0.0 < step then x < y else y < x

instance (step x y : Float) : Decidable (Value.Precedes step x y) :=
  inferInstanceAs (Decidable (if 0.0 < step then x < y else y < x))

/-- How many steps, and which part of one, lead from a number to another one. -/
def Value.stepsBetween (x y step : Float) : ℚ := (value y - value x) / value step

open Value (Precedes rangeCount rangeElement stepsBetween)

section Directions

variable {x y d : Float} {a b a' b' D : ℚ}

theorem zero_lt_iff_value (hx : x.isFinite = true) : 0.0 < x ↔ 0 < value x := by
  rw [lt_iff_value_lt, value_zero]
  exact ⟨fun h => h.2.2, fun h =>
    ⟨read_ne_nan_of_isFinite isFinite_zero, read_ne_nan_of_isFinite hx, h⟩⟩

theorem precedes_iff (hd : d.isFinite = true) (ne : value d ≠ 0) (hx : read x ≠ .nan)
    (hy : read y ≠ .nan) : Precedes d x y ↔ 0 < stepsBetween x y d := by
  rw [Precedes, stepsBetween]
  simp only [zero_lt_iff_value hd]
  split
  · next forward =>
    rw [lt_iff_value_lt, div_pos_iff_of_pos_right forward, sub_pos]
    exact ⟨fun h => h.2.2, fun h => ⟨hx, hy, h⟩⟩
  · next backward =>
    have negative : value d < 0 := lt_of_le_of_ne (not_lt.mp backward) ne
    rw [lt_iff_value_lt, div_pos_iff, ← sub_neg]
    simp only [negative, negative.not_gt, and_false, and_true, false_or]
    exact ⟨fun h => h.2.2, fun h => ⟨hy, hx, h⟩⟩

/-- What keeps the order keeps it in either direction. -/
theorem div_le_div_of_mono (up : a ≤ b → a' ≤ b') (down : b ≤ a → b' ≤ a') (le : a / D ≤ b / D) :
    a' / D ≤ b' / D := by
  rcases lt_trichotomy D 0 with negative | rfl | positive
  · rw [div_le_div_right_of_neg negative] at le ⊢
    exact down le
  · rw [div_zero, div_zero]
  · rw [div_le_div_iff_of_pos_right positive] at le ⊢
    exact up le

end Directions

/-! ## Counts -/

theorem two_pow_lt_reach : (2 : ℚ) ^ 52 < reach := by
  obtain ⟨finite, eq⟩ := value_ofNat (n := 2 ^ 52) (by decide)
  have lt := abs_value_lt_reach finite
  rw [eq, Nat.abs_cast] at lt
  exact_mod_cast lt

/-- Start, end and step are finite, and the step leads somewhere. -/
structure IsRange (s e d : Float) : Prop where
  start : s.isFinite = true
  stop : e.isFinite = true
  step : d.isFinite = true
  ne : value d ≠ 0

namespace IsRange

variable {s e d : Float} (range : IsRange s e d)

include range

protected theorem precedes_iff : Precedes d s e ↔ 0 < stepsBetween s e d :=
  ValueMachine.precedes_iff range.step range.ne (read_ne_nan_of_isFinite range.start)
    (read_ne_nan_of_isFinite range.stop)

theorem span_pos_iff : 0 < value (e - s) / value d ↔ 0 < stepsBetween s e d := by
  obtain ⟨i, units⟩ := exists_units_sub range.stop range.start
  have sign := rounded_sign units
  rw [stepsBetween, div_pos_iff, div_pos_iff, (isRounding_sub range.stop range.start).2, sign.1,
    sign.2]

theorem sameWay_iff :
    ((e - s > 0.0 && d > 0.0) || (e - s < 0.0 && d < 0.0)) = true ↔ Precedes d s e := by
  have number := (isRounding_sub range.stop range.start).1
  have zero := read_ne_nan_of_isFinite isFinite_zero
  have known := read_ne_nan_of_isFinite range.step
  rw [range.precedes_iff, ← range.span_pos_iff, div_pos_iff]
  simp only [Bool.or_eq_true, Bool.and_eq_true, decide_eq_true_eq, gt_iff_lt, lt_iff_value_lt,
    value_zero]
  tauto

/-- The rounded quotient is a number that is not negative. -/
theorem quotient_nonneg (before : Precedes d s e) :
    read ((e - s) / d) ≠ .nan ∧ 0 ≤ value ((e - s) / d) := by
  have number := (isRounding_sub range.stop range.start).1
  rw [range.precedes_iff, ← range.span_pos_iff] at before
  obtain finite | ⟨negative, infinite, size⟩ := finite_or_infinite number
  · have rounding := isRounding_div finite range.step range.ne
    refine ⟨rounding.1, ?_⟩
    have le := le_rounded isFinite_zero (value_zero.trans_le before.le)
    rwa [value_zero, ← rounding.2] at le
  · have reads := div_infinite infinite range.step range.ne
    have forward : (negative ^^ decide (value d < 0)) = false := by
      have far := beyond_pos
      rw [size, div_pos_iff] at before
      cases negative with
      | false =>
        have positive : 0 < value d := by
          simpa [signOf, far, far.not_gt] using before
        rw [decide_eq_false positive.not_gt]
        rfl
      | true =>
        have negative : value d < 0 := by
          simpa [signOf, far, far.not_gt] using before
        rw [decide_eq_true negative]
        rfl
    rw [forward] at reads
    rw [value, reads]
    refine ⟨Reading.noConfusion, ?_⟩
    rw [Reading.value, signOf, if_neg Bool.false_ne_true, one_mul]
    exact beyond_pos.le

theorem rangeCount_of_precedes (before : Precedes d s e) :
    rangeCount s e d = min (2 ^ 64 - 1) ⌈value ((e - s) / d)⌉₊ := by
  obtain ⟨number, nonneg⟩ := range.quotient_nonneg before
  rw [← toCount_ceil number nonneg]
  exact if_pos (range.sameWay_iff.mpr before)

theorem rangeCount_of_not_precedes (no : ¬Precedes d s e) : rangeCount s e d = 0 :=
  if_neg (mt range.sameWay_iff.mp no)

theorem ceil_stepsBetween_eq_zero (no : ¬Precedes d s e) : ⌈stepsBetween s e d⌉₊ = 0 := by
  rw [Nat.ceil_eq_zero, ← not_lt, ← range.precedes_iff]
  exact no

theorem rangeCount_lt : rangeCount s e d < 2 ^ 64 := by
  by_cases before : Precedes d s e
  · rw [range.rangeCount_of_precedes before]
    omega
  · rw [range.rangeCount_of_not_precedes before]
    omega

/-- The rounded quotient is less than one away from the way in steps. -/
theorem quotient_near (below : |value e - value s| < reach) (few : |stepsBetween s e d| ≤ 2 ^ 51) :
    |value ((e - s) / d) - stepsBetween s e d| < 1 := by
  obtain ⟨i, units⟩ := exists_units_sub range.stop range.start
  have difference := isRounding_sub range.stop range.start
  have rounding := isRounding_div (difference.isFinite below) range.step range.ne
  have first : |value (e - s) / value d - stepsBetween s e d| ≤ 1 / 2 := by
    have near := abs_rounded_units_sub_le units below
    rw [← difference.2] at near
    calc |value (e - s) / value d - stepsBetween s e d|
        = |value (e - s) - (value e - value s)| / |value d| := by
          rw [stepsBetween, ← sub_div, abs_div]
      _ ≤ |value e - value s| / 2 ^ 52 / |value d| :=
          div_le_div_of_nonneg_right near (abs_nonneg _)
      _ = |stepsBetween s e d| / 2 ^ 52 := by rw [stepsBetween, abs_div, div_right_comm]
      _ ≤ 1 / 2 := by linarith
  have size : |value (e - s) / value d| ≤ 2 ^ 51 + 1 := by
    have := abs_sub_abs_le_abs_sub (value (e - s) / value d) (stepsBetween s e d)
    linarith
  have reached : |value (e - s) / value d| < reach := by
    have := two_pow_lt_reach
    linarith
  have second := abs_rounded_sub_le reached
  rw [← rounding.2] at second
  have tiny : (2 : ℚ) ^ (-1075 : ℤ) ≤ 2 ^ (-3 : ℤ) := zpow_le_zpow_right₀ one_le_two (by decide)
  have third := abs_sub_le (value ((e - s) / d)) (value (e - s) / value d) (stepsBetween s e d)
  rw [show (2 : ℚ) ^ (-3 : ℤ) = 1 / 8 by norm_num] at tiny
  linarith

/-- The count is off by one at most, as long as it has 51 bits and the way is not infinite. -/
theorem rangeCount_near (below : |value e - value s| < reach)
    (few : |stepsBetween s e d| ≤ 2 ^ 51) :
    rangeCount s e d ≤ ⌈stepsBetween s e d⌉₊ + 1 ∧
      ⌈stepsBetween s e d⌉₊ ≤ rangeCount s e d + 1 := by
  by_cases before : Precedes d s e
  · obtain ⟨above, under⟩ := abs_lt.mp (range.quotient_near below few)
    have up := Nat.le_ceil (stepsBetween s e d)
    have up' := Nat.le_ceil (value ((e - s) / d))
    have le : ⌈value ((e - s) / d)⌉₊ ≤ ⌈stepsBetween s e d⌉₊ + 1 := by
      refine Nat.ceil_le.mpr ?_
      push_cast
      linarith
    have le' : ⌈stepsBetween s e d⌉₊ ≤ ⌈value ((e - s) / d)⌉₊ + 1 := by
      refine Nat.ceil_le.mpr ?_
      push_cast
      linarith
    have few' : ⌈stepsBetween s e d⌉₊ ≤ 2 ^ 51 := by
      refine Nat.ceil_le.mpr ?_
      push_cast
      exact (le_abs_self _).trans few
    rw [range.rangeCount_of_precedes before, Nat.min_eq_right (by omega)]
    exact ⟨le, le'⟩
  · rw [range.rangeCount_of_not_precedes before, range.ceil_stepsBetween_eq_zero before]
    omega

end IsRange

/-! ## Elements -/

theorem isFinite_ofNat {n : ℕ} (bound : n < 2 ^ 64) : (ofNat n).isFinite = true := by
  have limit := rounded_of_multiple (i := 1) (u := 64) (by decide) (by decide) (by decide)
  have far := abs_value_lt_reach limit.1
  have near : (n : ℚ) ≤ 2 ^ 64 := by exact_mod_cast bound.le
  rw [limit.2, Int.cast_one, one_mul, abs_of_pos (zpow_two_pos _)] at far
  rw [ofNat_eq_rounded]
  refine IsRounding.isFinite ⟨read_rounded_ne_nan n, rfl⟩ ?_
  rw [Nat.abs_cast]
  exact near.trans_lt far

namespace IsRange

variable {s e d : Float} {k l : ℕ} (range : IsRange s e d)

include range

theorem read_rangeElement_ne_nan (bound : k < 2 ^ 64) : read (rangeElement s d k) ≠ .nan :=
  read_add_ne_nan range.start (isRounding_mul (isFinite_ofNat bound) range.step).1

/-- The numbers of a range do not go back. -/
theorem rangeElement_mono (le : k ≤ l) (bound : l < 2 ^ 64) :
    value (rangeElement s d k) / value d ≤ value (rangeElement s d l) / value d := by
  have product (n : ℕ) (bound : n < 2 ^ 64) := isRounding_mul (isFinite_ofNat bound) range.step
  have first := product k (le.trans_lt bound)
  have second := product l bound
  have steps : value (ofNat k) * value d / value d ≤ value (ofNat l) * value d / value d := by
    rw [mul_div_cancel_right₀ _ range.ne, mul_div_cancel_right₀ _ range.ne, ofNat_eq_rounded,
      ofNat_eq_rounded]
    exact rounded_mono (by exact_mod_cast le)
  have products : value (ofNat k * d) / value d ≤ value (ofNat l * d) / value d := by
    rw [first.2, second.2]
    exact div_le_div_of_mono rounded_mono rounded_mono steps
  exact div_le_div_of_mono (value_add_mono range.start first.1 second.1)
    (value_add_mono range.start second.1 first.1) products

theorem not_precedes (le : k ≤ l) (bound : l < 2 ^ 64) :
    ¬Precedes d (rangeElement s d l) (rangeElement s d k) := by
  rw [ValueMachine.precedes_iff range.step range.ne (range.read_rangeElement_ne_nan bound)
    (range.read_rangeElement_ne_nan (le.trans_lt bound)), stepsBetween, sub_div, sub_pos]
  exact not_lt.mpr (range.rangeElement_mono le bound)

/-- A range begins at its start. -/
theorem rangeElement_zero : (rangeElement s d 0 == s) = true := by
  have zero := value_ofNat (n := 0) (by decide)
  have product := isRounding_mul zero.1 range.step
  have none : value (ofNat 0) * value d = (0 : ℤ) * 2 ^ (0 : ℤ) := by
    rw [zero.2, Nat.cast_zero, zero_mul, Int.cast_zero, zero_mul]
  rw [none] at product
  have exact := product.exact (by decide) (by decide) (by decide)
  have sum := isRounding_add range.start exact.1
  rw [exact.2, Int.cast_zero, zero_mul, add_zero] at sum
  exact (beq_iff_value_eq _ _).mpr
    ⟨sum.1, read_ne_nan_of_isFinite range.start, sum.2.trans (value_rounded range.start)⟩

end IsRange

/-! ## Numbers that are not rounded -/

section Quotients

variable {p c : ℤ} {k : ℕ}

theorem abs_div_le (p c : ℤ) : |(p : ℚ) / c| ≤ p.natAbs := by
  rw [abs_div, Nat.cast_natAbs, Int.cast_abs]
  rcases eq_or_ne c 0 with rfl | ne
  · rw [Int.cast_zero, abs_zero, div_zero]
    exact abs_nonneg _
  · exact div_le_self (abs_nonneg _) (by exact_mod_cast Int.one_le_abs ne)

theorem ne_zero_of_lt_div (lt : (k : ℚ) < p / c) : c ≠ 0 := by
  rintro rfl
  rw [Int.cast_zero, div_zero] at lt
  exact absurd lt (Nat.cast_nonneg k).not_gt

/-- A quotient that is greater than an integer is so by a part of its divisor. -/
theorem one_div_le_sub (lt : (k : ℚ) < p / c) : 1 / |(c : ℚ)| ≤ p / c - k := by
  have ne : (c : ℚ) ≠ 0 := by exact_mod_cast ne_zero_of_lt_div lt
  have some : 0 < (p : ℚ) / c - k := sub_pos.mpr lt
  have whole : (p : ℚ) / c - k = ((p - k * c : ℤ) : ℚ) / c := by
    push_cast
    field_simp
  have numerator : p - k * c ≠ 0 := by
    intro zero
    rw [whole, zero, Int.cast_zero, zero_div] at some
    exact lt_irrefl _ some
  rw [← abs_of_pos some, whole, abs_div]
  refine div_le_div_of_nonneg_right ?_ (abs_nonneg _)
  exact_mod_cast Int.one_le_abs numerator

/-- A quotient of small integers is not rounded down to an integer. -/
theorem lt_rounded_div (small : p.natAbs ≤ 2 ^ 52) (small' : c.natAbs ≤ 2 ^ 51)
    (lt : (k : ℚ) < p / c) : (k : ℚ) < value (rounded (p / c)) := by
  have ne := ne_zero_of_lt_div lt
  have pos : 0 < |(c : ℚ)| := abs_pos.mpr (by exact_mod_cast ne)
  have one : (1 : ℚ) ≤ |(c : ℚ)| := by exact_mod_cast Int.one_le_abs ne
  have smallQ : |(p : ℚ)| ≤ 2 ^ 52 := by
    rw [← Int.cast_abs, ← Nat.cast_natAbs]
    exact_mod_cast small
  have smallQ' : |(c : ℚ)| ≤ 2 ^ 51 := by
    rw [← Int.cast_abs, ← Nat.cast_natAbs]
    exact_mod_cast small'
  have gap := one_div_le_sub lt
  have size : |(p : ℚ) / c| ≤ 2 ^ 52 * (1 / |(c : ℚ)|) := by
    rw [abs_div, div_eq_mul_one_div]
    exact mul_le_mul_of_nonneg_right smallQ (by positivity)
  have unit : 1 / |(c : ℚ)| ≤ 1 := (div_le_one pos).mpr one
  have least : (1 : ℚ) / 2 ^ 51 ≤ 1 / |(c : ℚ)| := one_div_le_one_div_of_le pos smallQ'
  have tiny : (2 : ℚ) ^ (-1075 : ℤ) ≤ 2 ^ (-53 : ℤ) := zpow_le_zpow_right₀ one_le_two (by decide)
  rw [show (2 : ℚ) ^ (-53 : ℤ) = 1 / 2 ^ 53 by norm_num] at tiny
  -- half a part of the divisor is what rounding can take away at most
  have near := abs_rounded_sub_le (size.trans_lt (by linarith [two_pow_lt_reach]))
  have lower := (abs_le.mp near).1
  linarith

end Quotients

/-- Start, end and step are multiples of one power of two, with two bits left for sums. -/
structure IsAligned (s e d : Float) (u a b c : ℤ) : Prop where
  least : -1074 ≤ u
  most : u ≤ 970
  start_small : a.natAbs ≤ 2 ^ 51
  stop_small : b.natAbs ≤ 2 ^ 51
  step_small : c.natAbs ≤ 2 ^ 51
  start : value s = a * 2 ^ u
  stop : value e = b * 2 ^ u
  step : value d = c * 2 ^ u

namespace IsAligned

variable {s e d : Float} {u a b c : ℤ} {k : ℕ} (aligned : IsAligned s e d u a b c)

include aligned

theorem distance_small : (b - a).natAbs ≤ 2 ^ 52 := by
  have := aligned.start_small
  have := aligned.stop_small
  omega

theorem stepsBetween_eq : stepsBetween s e d = ((b - a : ℤ) : ℚ) / c := by
  rw [stepsBetween, aligned.start, aligned.stop, aligned.step, ← sub_mul,
    mul_div_mul_right _ _ (zpow_two_pos u).ne']
  push_cast
  rfl

theorem ceil_stepsBetween_le : ⌈stepsBetween s e d⌉₊ ≤ 2 ^ 52 := by
  have le := (le_abs_self _).trans (abs_div_le (b - a) c)
  rw [← aligned.stepsBetween_eq] at le
  exact Nat.ceil_le.mpr (le.trans (by exact_mod_cast aligned.distance_small))

/-- All steps together lead at most one step too far. -/
theorem natAbs_mul_le (le : k ≤ ⌈stepsBetween s e d⌉₊) : (k * c).natAbs ≤ 2 ^ 52 + 2 ^ 51 := by
  have small := aligned.step_small
  have near := aligned.distance_small
  rw [Int.natAbs_mul, Int.natAbs_natCast]
  cases k with
  | zero => omega
  | succ j =>
    have before := Nat.lt_ceil.mp le
    rw [aligned.stepsBetween_eq] at before
    have pos : (0 : ℚ) < |(c : ℚ)| := abs_pos.mpr (by exact_mod_cast ne_zero_of_lt_div before)
    replace before := before.trans_le (le_abs_self _)
    rw [abs_div, lt_div_iff₀ pos, ← Int.cast_abs, ← Int.cast_abs, ← Nat.cast_natAbs,
      ← Nat.cast_natAbs] at before
    have less : j * c.natAbs < (b - a).natAbs := by exact_mod_cast before
    rw [Nat.add_mul, Nat.one_mul]
    omega

variable (range : IsRange s e d)

include range

/-- The count is the way in steps, rounded up. -/
theorem rangeCount_eq : rangeCount s e d = ⌈stepsBetween s e d⌉₊ := by
  by_cases before : Precedes d s e
  · have steps := aligned.stepsBetween_eq
    obtain ⟨span, difference⟩ : (e - s).isFinite = true ∧ value (e - s) = value e - value s := by
      have rounding := isRounding_sub range.stop range.start
      rw [aligned.start, aligned.stop, ← sub_mul, ← Int.cast_sub] at rounding ⊢
      exact rounding.exact (aligned.distance_small.trans (by decide)) aligned.least aligned.most
    have quotient : value ((e - s) / d) = value (rounded ((b - a : ℤ) / c)) := by
      rw [(isRounding_div span range.step range.ne).2, difference, ← steps, stepsBetween]
    have few := aligned.ceil_stepsBetween_le
    obtain ⟨finite, whole⟩ := value_ofNat (few.trans (by decide : 2 ^ 52 ≤ 2 ^ 53))
    have le : ⌈value ((e - s) / d)⌉₊ ≤ ⌈stepsBetween s e d⌉₊ := by
      rw [Nat.ceil_le, quotient, ← steps, ← whole]
      exact rounded_le finite (whole ▸ Nat.le_ceil _)
    rw [range.rangeCount_of_precedes before, Nat.min_eq_right (by omega)]
    refine le_antisymm le (not_lt.mp fun less => ?_)
    -- the quotient would be rounded down to an integer or past it
    have passed := lt_rounded_div aligned.distance_small aligned.step_small
      (steps ▸ Nat.lt_ceil.mp less)
    rw [← quotient] at passed
    exact absurd (Nat.le_ceil _) (not_le.mpr passed)
  · rw [range.rangeCount_of_not_precedes before, range.ceil_stepsBetween_eq_zero before]

/-- No number is rounded up to the one behind the last. -/
theorem value_rangeElement (le : k ≤ rangeCount s e d) :
    value (rangeElement s d k) = value s + k * value d := by
  rw [aligned.rangeCount_eq range] at le
  have few := le.trans aligned.ceil_stepsBetween_le
  have bound := aligned.natAbs_mul_le le
  have small := aligned.start_small
  obtain ⟨whole, natural⟩ := value_ofNat (few.trans (by decide : 2 ^ 52 ≤ 2 ^ 53))
  have product := isRounding_mul whole range.step
  rw [natural, aligned.step, ← mul_assoc, ← Int.cast_natCast, ← Int.cast_mul] at product
  obtain ⟨finite, eq⟩ := product.exact (by omega) aligned.least aligned.most
  have sum := isRounding_add range.start finite
  rw [aligned.start, eq, ← add_mul, ← Int.cast_add] at sum
  rw [rangeElement, (sum.exact (by omega) aligned.least aligned.most).2, aligned.start,
    aligned.step]
  push_cast
  ring

/-- The numbers before the end are those that are counted. -/
theorem precedes_iff_lt (le : k ≤ rangeCount s e d) :
    Precedes d (rangeElement s d k) e ↔ k < rangeCount s e d := by
  have count := aligned.rangeCount_eq range
  have few := (le.trans_eq count).trans aligned.ceil_stepsBetween_le
  have number := range.read_rangeElement_ne_nan (few.trans_lt (by decide : 2 ^ 52 < 2 ^ 64))
  have ne := range.ne
  have left : stepsBetween (rangeElement s d k) e d = stepsBetween s e d - k := by
    rw [stepsBetween, stepsBetween, aligned.value_rangeElement range le]
    field_simp
    ring
  rw [precedes_iff range.step ne number (read_ne_nan_of_isFinite range.stop), left, sub_pos, count,
    Nat.lt_ceil]

end IsAligned

/-! ## Ranges as arrays -/

section Ranges

variable {m : Machine} {start stop step : Value} {s e d : Float}

theorem perform_rangeArgs {config : Config} {h : Heap}
    (hs : (h.payload start).number? = some s) (he : (h.payload stop).number? = some e)
    (hd : h.rangeStep? step = some d) (ne : (d == 0.0) = false) :
    HeapM.perform (Value.rangeArgs start stop step).run config h = (.ok (s, e, d), h) := by
  have first : HeapM.perform (numberArg start "range" "start" .object).run config h =
    (.ok s, h) := perform_require _ config hs _ _ _
  have last : HeapM.perform (numberArg stop "range" "end" .object).run config h =
    (.ok e, h) := perform_require _ config he _ _ _
  have close : HeapM.perform (if d == 0.0 then fail .zeroStep .null else pure (s, e, d) :
      Attempt (Float × Float × Float)).run config h = (.ok (s, e, d), h) := by
    rw [if_neg (by rw [ne]; exact Bool.false_ne_true)]
    rfl
  rw [Value.rangeArgs, Attempt.bind_ok first, Attempt.bind_ok last, Attempt.bind_payloadOf]
  rw [Heap.rangeStep?] at hd
  dsimp only
  split at hd
  · next absent =>
    obtain rfl := Option.some.inj hd
    rw [if_pos absent]
    exact close
  · next given =>
    have width : HeapM.perform (numberArg step "range" "step" .object).run config h =
      (.ok d, h) := perform_require _ config hd _ _ _
    rw [if_neg given, Attempt.bind_ok width]
    exact close

theorem HeapM.yields_ofNumber (x : Float) : Yields (Value.ofNumber x) (.number x) :=
  fun config h => ⟨(creates_ofNumber x config h).1.grows, payload_ofNumber x config h⟩

/-- A range is a new array of its numbers, unless it is too long for any array. -/
theorem run_range (hs : (m.heap.payload start).number? = some s)
    (he : (m.heap.payload stop).number? = some e) (hd : m.heap.rangeStep? step = some d)
    (ne : (d == 0.0) = false) :
    if rangeCount s e d < Value.arrayLimit then
      ∃ w h, (settle (Value.range start stop step)).run.run m =
          (.ok w, { m with heap := h, status := .ok }) ∧
        m.heap.MakesArray h w
          ((List.range (rangeCount s e d)).map fun k => .number (rangeElement s d k))
    else (settle (Value.range start stop step)).run.run m = (.error .panic, m) := by
  have args : HeapM.perform (Value.rangeArgs start stop step).run m.config m.heap =
    (.ok (s, e, d), m.heap) := perform_rangeArgs hs he hd ne
  have run : (liftM (Value.rangeArgs start stop step) : Action (Float × Float × Float)).run.run.run
      m = (.ok (.ok (s, e, d)), m) := by
    rw [Action.lift_eq, args]
  split
  · next fits =>
    have made := HeapM.makesArray_mapM (f := fun k => Value.ofNumber (rangeElement s d k))
      (fun k => HeapM.yields_ofNumber _) (fun _ => Payload.noConfusion)
      (List.range (rangeCount s e d)) m.config m.heap
    refine ⟨_, _, ?_, made⟩
    rw [settle, ExceptT.run_bind, StateT.run_bind, Value.range, Action.bind_ok run]
    dsimp only
    rw [if_pos fits]
    rfl
  · next large =>
    rw [settle, ExceptT.run_bind, StateT.run_bind, Value.range, Action.bind_ok run]
    dsimp only
    rw [if_neg large]
    rfl

/-- A range of finite numbers with a step that is not zero is a new array of its numbers, unless it
is too long for any array. It is empty if its end is not strictly beyond its start in the direction
of the step. The number at its first place is its start, and the numbers do not go back. How many
there are differs by one at most from the way to the end in steps, rounded up, as long as that has
51 bits and the way is not infinite. And where start, end and step are multiples of a power of two
that leave room for sums, the number at each place is the exact one, all of them are strictly before
the end, and the one that would come next is not. -/
theorem range_counts (hs : (m.heap.payload start).number? = some s)
    (he : (m.heap.payload stop).number? = some e) (hd : m.heap.rangeStep? step = some d)
    (finite : s.isFinite = true) (finite' : e.isFinite = true) (finite'' : d.isFinite = true)
    (ne : (d == 0.0) = false) :
    let count := rangeCount s e d
    let x := rangeElement s d
    (if count < Value.arrayLimit then
      ∃ w h, (settle (Value.range start stop step)).run.run m =
          (.ok w, { m with heap := h, status := .ok }) ∧
        m.heap.MakesArray h w ((List.range count).map fun k => .number (x k))
    else (settle (Value.range start stop step)).run.run m = (.error .panic, m)) ∧
    (¬Precedes d s e → count = 0) ∧
    (x 0 == s) = true ∧
    (∀ k l, k ≤ l → l ≤ count → ¬Precedes d (x l) (x k)) ∧
    (|value e - value s| < reach → |stepsBetween s e d| ≤ 2 ^ 51 →
      count ≤ ⌈stepsBetween s e d⌉₊ + 1 ∧ ⌈stepsBetween s e d⌉₊ ≤ count + 1) ∧
    ∀ u a b c, IsAligned s e d u a b c → ∀ k, k ≤ count →
      value (x k) = value s + k * value d ∧ (Precedes d (x k) e ↔ k < count) := by
  intro count x
  have some : value d ≠ 0 := by
    intro none
    have same := (beq_iff_value_eq d 0.0).mpr
      ⟨read_ne_nan_of_isFinite finite'', read_ne_nan_of_isFinite isFinite_zero,
        none.trans value_zero.symm⟩
    rw [ne] at same
    cases same
  have range : IsRange s e d := ⟨finite, finite', finite'', some⟩
  refine ⟨run_range hs he hd ne, range.rangeCount_of_not_precedes, range.rangeElement_zero,
    fun k l le fits => range.not_precedes le (fits.trans_lt range.rangeCount_lt),
    range.rangeCount_near, fun u a b c aligned k le => ?_⟩
  exact ⟨aligned.value_rangeElement range le, aligned.precedes_iff_lt range le⟩

end Ranges

/-- A machine with some numbers. -/
def ruler : Machine :=
  { Machine.start ⟨"linux", "2024-01-01 00:00:00", 0, 0.5⟩ [] with
    heap := .ofCells #[.ofPayload (.number 2.0), .ofPayload (.number 0.5), .ofPayload (.number (-0.5)),
      .ofPayload (.number 1.0), .ofPayload (.number 1.3), .ofPayload (.number 0.1)] }

/-- Two, one and a half, and one. -/
theorem range_counts_halves : ∃ w h,
    (settle (Value.range (.cell 0) (.cell 1) (.cell 2))).run.run ruler =
        (.ok w, { ruler with heap := h, status := .ok }) ∧
      ruler.heap.MakesArray h w
        ((List.range 3).map fun k => .number (rangeElement 2.0 (-0.5) k)) ∧
      ∀ k, k ≤ 3 → value (rangeElement 2.0 (-0.5) k) = 2 - k / 2 ∧
        (Precedes (-0.5) (rangeElement 2.0 (-0.5) k) 0.5 ↔ k < 3) := by
  have count : rangeCount 2.0 0.5 (-0.5) = 3 := by decide +kernel
  have two : value 2.0 = 2 := by decide +kernel
  have half : value 0.5 = 1 / 2 := by decide +kernel
  have back : value (-0.5) = -(1 / 2) := by decide +kernel
  have start : (ruler.heap.payload (.cell 0)).number? = some 2.0 := rfl
  have stop : (ruler.heap.payload (.cell 1)).number? = some 0.5 := rfl
  have step : ruler.heap.rangeStep? (.cell 2) = some (-0.5) := rfl
  obtain ⟨run, -, -, -, -, aligned⟩ := range_counts start stop step (by decide +kernel)
    (by decide +kernel) (by decide +kernel) (by decide +kernel)
  rw [count, if_pos (by decide)] at run
  obtain ⟨w, h, run, made⟩ := run
  refine ⟨w, h, run, made, fun k le => ?_⟩
  have halves : IsAligned 2.0 0.5 (-0.5) (-1) 4 1 (-1) := by
    refine ⟨by decide, by decide, by decide, by decide, by decide, ?_, ?_, ?_⟩
    · norm_num [two]
    · norm_num [half]
    · norm_num [back]
  have place := aligned _ _ _ _ halves k (le.trans_eq count.symm)
  rw [count, two, back] at place
  exact ⟨place.1.trans (by ring), place.2⟩

/-- The way from 1 to 1.3 is a little more than three steps of 0.1, but three of them lead to 1.3:
the end is in the range. -/
theorem range_reaches_end : ∃ w h,
    (settle (Value.range (.cell 3) (.cell 4) (.cell 5))).run.run ruler =
        (.ok w, { ruler with heap := h, status := .ok }) ∧
      ruler.heap.MakesArray h w ((List.range 4).map fun k => .number (rangeElement 1.0 0.1 k)) ∧
      (rangeElement 1.0 0.1 3 == 1.3) = true ∧ ¬Precedes 0.1 (rangeElement 1.0 0.1 3) 1.3 := by
  have count : rangeCount 1.0 1.3 0.1 = 4 := by decide +kernel
  have start : (ruler.heap.payload (.cell 3)).number? = some 1.0 := rfl
  have stop : (ruler.heap.payload (.cell 4)).number? = some 1.3 := rfl
  have step : ruler.heap.rangeStep? (.cell 5) = some 0.1 := rfl
  have run := run_range start stop step (by decide +kernel)
  rw [count, if_pos (by decide)] at run
  obtain ⟨w, h, run, made⟩ := run
  exact ⟨w, h, run, made, by decide +kernel, by decide +kernel⟩

/-- The way from -1 to `2 ^ 53` is rounded down to eight steps of `2 ^ 50`. So the ninth number is
missing, which is one less than the end. -/
example : rangeCount (-1.0) 9007199254740992.0 1125899906842624.0 = 8 ∧
    Precedes 1125899906842624.0 (rangeElement (-1.0) 1125899906842624.0 8) 9007199254740992.0 := by
  decide +kernel

end ValueMachine
