import ValueMachine.Proofs.Number.RoundingInterval
import ValueMachine.Proofs.Number.SignificantDigits

/-!
# Doubles with few significant digits

A double that is rounded to significant digits and back to a double may be another one afterwards.
It is the same if some decimal of so many digits is rounded to it; only at a power of two, where the
doubles below lie closer together, the nearest such decimal can be on the wrong side.

Results:
* `exists_nearestDecimal`: what is left of a double;
* `shortened_of_exact`: a double with few digits is left as it is;
* `shortened_eq_iff`: so is a double that is the nearest one to a decimal with few digits;
* `shortened_of_seventeen_le`: seventeen digits leave every double as it is.
-/

namespace ValueMachine.Number

/-- The double nearest to `± digits · 10 ^ exponent`. -/
def nearestDecimal (negative : Bool) (digits : Nat) (exponent : Int) : Float :=
  nearest negative (digits * tenPow exponent.toNat) (tenPow (-exponent).toNat)

/-- The double nearest to a number rounded to significant digits. -/
def shortened (x : Float) (precision : Nat) : Float :=
  match read x with
  | .finite negative mantissa exponent =>
    let rounded := significant (numerator mantissa exponent) (denominator exponent) precision
    nearestDecimal negative rounded.digits (rounded.exponent - ((precision : Int) - 1))
  | _ => x

section Shortened

variable {x : Float} {negative : Bool} {mantissa precision : ℕ} {exponent : ℤ}

/-- The exact value of a double as a quotient. -/
theorem numerator_div_denominator (mantissa : ℕ) (exponent : ℤ) :
    (numerator mantissa exponent : ℚ) / denominator exponent = mantissa * 2 ^ exponent := by
  have scaled := div_mul_twoPow mantissa 1 exponent
  rwa [Nat.one_mul, Nat.cast_one, div_one] at scaled

theorem numerator_pos (some : mantissa ≠ 0) : 0 < numerator mantissa exponent :=
  Nat.mul_pos (Nat.pos_of_ne_zero some) (twoPow_pos _)

theorem decimal_div (digits : ℕ) (exponent : ℤ) :
    ((digits * tenPow exponent.toNat : ℕ) : ℚ) / (tenPow (-exponent).toNat : ℕ) =
      digits * 10 ^ exponent := by
  have scaled := div_mul_tenPow digits 1 exponent
  rwa [Nat.one_mul, Nat.cast_one, div_one] at scaled

theorem shortened_eq_nearest (h : read x = .finite negative mantissa exponent) {num den : ℕ}
    (pos : 0 < den)
    (value : (num : ℚ) / den = (significant (numerator mantissa exponent) (denominator exponent)
      precision).amount precision) :
    shortened x precision = nearest negative num den := by
  rw [shortened, h]
  apply nearest_congr negative (tenPow_pos _) pos
  rw [decimal_div, value, Scientific.amount]

theorem nearest_of_zero (h : read x = .finite negative 0 exponent) (den : ℕ) :
    nearest negative 0 den = x := by
  have lowest : exponent = -1074 := by
    refine (isCanonical_of_finite h).full.resolve_left fun le => ?_
    have := twoPow_pos 52
    omega
  rw [nearest_eq_iff h, nearestBits_zero, lowest]
  rfl

theorem digits_significant_zero (precision : ℕ) {den : ℕ} (pos : 0 < den) :
    (significant 0 den precision).digits = 0 := by
  have zero (shift shift' : ℕ) : roundDiv (0 * tenPow shift) (den * tenPow shift') = 0 := by
    have exact := roundDiv_mul_self 0 (Nat.mul_pos pos (tenPow_pos shift'))
    rwa [Nat.zero_mul] at exact ⊢
  rw [significant, zero, if_neg (tenPow_pos precision).ne]

/-- A zero is left as it is. -/
theorem shortened_of_zero (h : read x = .finite negative 0 exponent) (precision : ℕ) :
    shortened x precision = x := by
  rw [shortened, h]
  dsimp only
  rw [nearestDecimal, numerator, Nat.zero_mul,
    digits_significant_zero precision (denominator_pos exponent), Nat.zero_mul, nearest_of_zero h]

/-- What is left of a double is the double nearest to a decimal, and no decimal of as many digits is
nearer to the double that there was. -/
theorem exists_nearestDecimal (h : read x = .finite negative mantissa exponent)
    (some : 0 < precision) :
    ∃ (d : ℕ) (k : ℤ), d < tenPow precision ∧ shortened x precision = nearestDecimal negative d k ∧
      ∀ (d' : ℕ) (k' : ℤ), d' < tenPow precision →
        |(mantissa : ℚ) * 2 ^ exponent - d * 10 ^ k| ≤
          |(mantissa : ℚ) * 2 ^ exponent - d' * 10 ^ k'| := by
  by_cases zero : mantissa = 0
  · subst zero
    refine ⟨0, 0, tenPow_pos precision, ?_, fun d' k' _ => ?_⟩
    · rw [shortened_of_zero h, nearestDecimal, Nat.zero_mul, nearest_of_zero h]
    · rw [Nat.cast_zero, zero_mul, zero_mul, sub_zero, abs_zero]
      exact abs_nonneg _
  · have pos := @numerator_pos _ exponent zero
    have pos' := denominator_pos exponent
    refine ⟨_, _, (digits_bounds pos pos' some).2, by rw [shortened, h], fun d' k' few => ?_⟩
    rw [← numerator_div_denominator]
    exact abs_sub_amount_le pos pos' some k' few

/-- A double with few digits is left as it is. -/
theorem shortened_of_exact (h : read x = .finite negative mantissa exponent)
    (some : 0 < precision) {d : ℕ} {k : ℤ} (few : d < tenPow precision)
    (exact : (mantissa : ℚ) * 2 ^ exponent = d * 10 ^ k) : shortened x precision = x := by
  by_cases zero : mantissa = 0
  · rw [zero] at h
    exact shortened_of_zero h precision
  · have pos := @numerator_pos _ exponent zero
    have pos' := denominator_pos exponent
    have value := numerator_div_denominator mantissa exponent
    have amount := amount_of_exact pos pos' some few (value.trans exact)
    rw [shortened_eq_nearest h pos' amount.symm, nearest_eq_iff h]
    exact nearestBits_of_exact pos' (isCanonical_of_finite h) (magnitudeBits_lt h) value

/-- A distance, measured in units of the last bit. -/
theorem abs_div_sub (a : ℚ) (mantissa : ℕ) (exponent : ℤ) :
    |a / 2 ^ exponent - mantissa| = |mantissa * 2 ^ exponent - a| / 2 ^ exponent := by
  have unit := zpow_two_pos exponent
  rw [← abs_of_pos unit, ← abs_div, abs_of_pos unit, sub_div, mul_div_cancel_right₀ _ unit.ne',
    abs_sub_comm]

/-- Unless it is a power of two, a double is left as it is exactly if it is the nearest one to some
decimal with few digits. -/
theorem shortened_eq_iff (h : read x = .finite negative mantissa exponent) (some : 0 < precision)
    (inside : mantissa ≠ twoPow 52 ∨ exponent = -1074) :
    shortened x precision = x ↔
      ∃ (d : ℕ) (k : ℤ), d < tenPow precision ∧ nearestDecimal negative d k = x := by
  have canonical := isCanonical_of_finite h
  have finite := magnitudeBits_lt h
  by_cases zero : mantissa = 0
  · subst zero
    have same := shortened_of_zero h precision
    refine iff_of_true same ⟨0, 0, tenPow_pos precision, ?_⟩
    rw [nearestDecimal, Nat.zero_mul, nearest_of_zero h]
  have pos := @numerator_pos _ exponent zero
  have pos' := denominator_pos exponent
  have value := numerator_div_denominator mantissa exponent
  obtain ⟨lower, upper⟩ := digits_bounds pos pos' some
  constructor
  · intro same
    rw [shortened, h] at same
    exact ⟨_, _, upper, same⟩
  · rintro ⟨d, k, few, same⟩
    have near := abs_sub_amount_le pos pos' some k few
    rw [value] at near
    rw [nearestDecimal, nearest_eq_iff h] at same
    have some' : 0 < d := by
      refine Nat.pos_of_ne_zero fun none => zero ?_
      rw [none, Nat.zero_mul, nearestBits_zero, magnitudeBits] at same
      omega
    rw [nearestBits_eq_iff (Nat.mul_pos some' (tenPow_pos _)) (tenPow_pos _) canonical finite
      inside, decimal_div] at same
    rw [shortened, h]
    dsimp only
    have written := (tenPow_pos _).trans_le lower
    rw [nearestDecimal, nearest_eq_iff h, nearestBits_eq_iff (Nat.mul_pos written (tenPow_pos _))
      (tenPow_pos _) canonical finite inside, decimal_div]
    refine same.of_abs_le ?_
    rw [abs_div_sub, abs_div_sub]
    exact div_le_div_of_nonneg_right near (zpow_two_pos exponent).le

/-- The nearest decimal is rounded to the neighbour below, and another one to the power. -/
example : shortened (nearest false 1 (twoPow 44)) 16 ≠ nearest false 1 (twoPow 44) ∧
    nearestDecimal false 5684341886080802 (-29) = nearest false 1 (twoPow 44) := by
  decide +kernel

/-- Seventeen digits differ from a number by a small part of it. -/
theorem abs_sub_amount_le_part {num den : ℕ} (pos : 0 < num) (pos' : 0 < den)
    (enough : 17 ≤ precision) :
    |(num / den : ℚ) - (significant num den precision).amount precision| ≤
      num / den / (2 * 10 ^ 16) := by
  have posQ : (0 : ℚ) < num / den := div_pos (by exact_mod_cast pos) (by exact_mod_cast pos')
  have lower : (10 : ℚ) ^ Int.log 10 (num / den : ℚ) ≤ num / den := by
    exact_mod_cast Int.zpow_log_le_self (by norm_num) posQ
  calc |(num / den : ℚ) - (significant num den precision).amount precision|
      ≤ 10 ^ (Int.log 10 (num / den : ℚ) - ((precision : ℤ) - 1)) / 2 :=
        abs_sub_amount_le_half pos pos' (by omega)
    _ ≤ 10 ^ (Int.log 10 (num / den : ℚ) + -16) / 2 :=
        div_le_div_of_nonneg_right (zpow_le_zpow_right₀ (by norm_num) (by omega)) (by norm_num)
    _ = 10 ^ Int.log 10 (num / den : ℚ) / (2 * 10 ^ 16) := by
        rw [zpow_ten_add, zpow_neg]
        field_simp
    _ ≤ num / den / (2 * 10 ^ 16) := div_le_div_of_nonneg_right lower (by norm_num)

/-- Seventeen digits tell all doubles apart. -/
theorem shortened_of_seventeen_le (h : read x = .finite negative mantissa exponent)
    (enough : 17 ≤ precision) : shortened x precision = x := by
  have canonical := isCanonical_of_finite h
  have finite := magnitudeBits_lt h
  by_cases zero : mantissa = 0
  · subst zero
    exact shortened_of_zero h precision
  have pos := @numerator_pos _ exponent zero
  have pos' := denominator_pos exponent
  have part := abs_sub_amount_le_part pos pos' enough
  have digits := (tenPow_pos _).trans_le (digits_bounds pos pos' (show 0 < precision by omega)).1
  rw [shortened, h]
  dsimp only
  rw [nearestDecimal, nearest_eq_iff h]
  rw [numerator_div_denominator, Scientific.amount] at part
  generalize significant (numerator mantissa exponent) (denominator exponent) precision = rounded
    at part digits ⊢
  have near : |rounded.digits * 10 ^ (rounded.exponent - ((precision : ℤ) - 1)) / 2 ^ exponent -
      (mantissa : ℚ)| ≤ mantissa / (2 * 10 ^ 16) := by
    have unit := zpow_two_pos exponent
    rw [abs_div_sub, div_le_iff₀ unit]
    exact part.trans_eq (by ring)
  rw [← decimal_div] at near
  have some := Nat.mul_pos digits (tenPow_pos (rounded.exponent - ((precision : ℤ) - 1)).toNat)
  by_cases inside : mantissa ≠ twoPow 52 ∨ exponent = -1074
  · have small : (mantissa : ℚ) < 2 ^ 53 := by
      rw [← cast_twoPow]
      exact_mod_cast canonical.small
    rw [nearestBits_eq_iff some (tenPow_pos _) canonical finite inside]
    left
    refine near.trans_lt ?_
    rw [div_lt_iff₀ (by norm_num)]
    linarith
  · rw [not_or, not_not] at inside
    obtain ⟨rfl, normal⟩ := inside
    have least := canonical.least
    apply nearestBits_of_power some (tenPow_pos _) (by omega) finite
    rw [cast_twoPow] at near
    refine near.trans_lt ?_
    norm_num

end Shortened

end ValueMachine.Number
