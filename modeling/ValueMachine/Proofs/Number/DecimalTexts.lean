import ValueMachine.Number.Numeral
import ValueMachine.Proofs.Number.RoundingInterval
import ValueMachine.Proofs.Number.SignificantDigits

/-!
# Amounts of decimal texts

A text of digits with a point stands for a rational number. Zeros at its end do not change it, and it
is read as the double nearest to it.

Results:
* `Decimal.amount_ofScaled`, `Decimal.amount_strip`: the amounts of the decimals that are written;
* `plainValue_mul_bounds`: how large digits with an exponent are.
-/

namespace ValueMachine.Number

/-! ## Digits -/

theorem toNat_sub_lt {c : Char} (digit : c.isDigit = true) : c.toNat - '0'.toNat < 10 := by
  have upper : c.toNat ≤ '9'.toNat := by
    simp only [Char.isDigit, Bool.and_eq_true, decide_eq_true_eq] at digit
    exact digit.2
  have nine : '9'.toNat = 57 := rfl
  have zero : '0'.toNat = 48 := rfl
  omega

theorem toNat_sub_pos {c : Char} (digit : c.isDigit = true) (ne : c ≠ '0') :
    0 < c.toNat - '0'.toNat := by
  have lower : '0'.toNat ≤ c.toNat := by
    simp only [Char.isDigit, Bool.and_eq_true, decide_eq_true_eq] at digit
    exact digit.1
  have other : c.toNat ≠ '0'.toNat := fun eq => ne (Char.toNat_inj.mp eq)
  omega

theorem plainValue_cons (c : Char) (text : List Char) :
    plainValue (c :: text) = (c.toNat - '0'.toNat) * tenPow text.length + plainValue text := by
  rw [plainValue, List.foldl_cons, foldl_withDigit, withDigit, Nat.mul_zero, Nat.zero_add]

theorem plainValue_lt {text : List Char} (digits : ∀ c ∈ text, c.isDigit = true) :
    plainValue text < tenPow text.length := by
  induction text with
  | nil => exact Nat.one_pos
  | cons c text ih =>
    obtain ⟨first, others⟩ := List.forall_mem_cons.mp digits
    have lt := toNat_sub_lt first
    have rest := ih others
    have power : tenPow (c :: text).length = 10 * tenPow text.length := Nat.pow_succ'
    rw [plainValue_cons, power]
    nlinarith

theorem le_plainValue {c : Char} {text : List Char} (digit : c.isDigit = true) (ne : c ≠ '0') :
    tenPow text.length ≤ plainValue (c :: text) := by
  rw [plainValue_cons]
  have := Nat.le_mul_of_pos_left (tenPow text.length) (toNat_sub_pos digit ne)
  omega

theorem plainValue_zeros {text : List Char} (zeros : ∀ c ∈ text, c = '0') :
    plainValue text = 0 := by
  induction text with
  | nil => rfl
  | cons c text ih =>
    obtain ⟨rfl, others⟩ := List.forall_mem_cons.mp zeros
    rw [plainValue_cons, ih others]
    simp

/-- Zeros in front do not count. -/
theorem plainValue_dropZeros (text : List Char) :
    plainValue (text.dropWhile (· == '0')) = plainValue text := by
  have zeros : ∀ c ∈ text.takeWhile (· == '0'), c = '0' := fun c mem => by
    simpa using List.mem_takeWhile_imp mem
  have whole := plainValue_append (text.takeWhile (· == '0')) (text.dropWhile (· == '0'))
  rw [List.takeWhile_append_dropWhile, plainValue_zeros zeros, Nat.zero_mul, Nat.zero_add] at whole
  exact whole.symm

/-! ## Decimals with a point -/

namespace Decimal

/-- The number that a decimal stands for. -/
def amount (d : Decimal) : ℚ := plainValue (d.whole ++ d.fraction) * 10 ^ (-(d.fraction.length : ℤ))

theorem length_digits_le {n places : ℕ} (some : places ≠ 0) (lt : n < tenPow places) :
    (digits n).length ≤ places := by
  rw [digits]
  split
  · exact Nat.pos_of_ne_zero some
  · exact (digitCount_le_iff n places).mpr lt

theorem length_fraction_ofScaled (scaled places : ℕ) :
    (ofScaled scaled places).fraction.length = places := by
  rw [ofScaled]
  dsimp only
  split
  · next none => rw [none]; rfl
  · next some =>
    have fits := length_digits_le some (Nat.mod_lt scaled (tenPow_pos places))
    rw [padZeros, List.length_append, List.length_replicate]
    omega

theorem plainValue_fraction_ofScaled (scaled places : ℕ) :
    plainValue (ofScaled scaled places).fraction = scaled % tenPow places := by
  rw [ofScaled]
  dsimp only
  split
  · next none =>
    rw [none]
    exact (Nat.mod_one scaled).symm
  · have zeros : plainValue (List.replicate (places - (digits (scaled % tenPow places)).length) '0') =
      0 := plainValue_zeros fun c mem => List.eq_of_mem_replicate mem
    rw [padZeros, plainValue_append, zeros, plainValue_digits, Nat.zero_mul, Nat.zero_add]

/-- The digits before and after the point are those of the scaled number. -/
theorem plainValue_ofScaled (scaled places : ℕ) :
    plainValue ((ofScaled scaled places).whole ++ (ofScaled scaled places).fraction) = scaled := by
  rw [plainValue_append, plainValue_fraction_ofScaled, length_fraction_ofScaled]
  show plainValue (digits (scaled / tenPow places)) * _ + _ = _
  rw [plainValue_digits, Nat.div_add_mod']

theorem amount_ofScaled (scaled places : ℕ) :
    (ofScaled scaled places).amount = scaled * 10 ^ (-(places : ℤ)) := by
  rw [amount, plainValue_ofScaled, length_fraction_ofScaled]

/-- Zeros at the end do not count. -/
theorem amount_strip (d : Decimal) : d.strip.amount = d.amount := by
  have zeros : ∀ c ∈ (d.fraction.reverse.takeWhile (· == '0')).reverse, c = '0' := by
    intro c mem
    simpa using List.mem_takeWhile_imp (List.mem_reverse.mp mem)
  have parts : d.fraction =
      d.strip.fraction ++ (d.fraction.reverse.takeWhile (· == '0')).reverse := by
    rw [strip, ← List.reverse_append, List.takeWhile_append_dropWhile, List.reverse_reverse]
  generalize (d.fraction.reverse.takeWhile (· == '0')).reverse = dropped at zeros parts
  have same : d.strip.whole = d.whole := rfl
  rw [amount, amount, parts, same, ← List.append_assoc, plainValue_append _ dropped,
    plainValue_zeros zeros, Nat.add_zero, Nat.cast_mul, cast_tenPow, mul_assoc, List.length_append,
    Nat.cast_add, neg_add_rev, zpow_ten_add, ← zpow_natCast, ← mul_assoc (10 ^ _), ← zpow_ten_add,
    add_neg_cancel, zpow_zero, one_mul]

end Decimal

/-! ## Reading -/

/-- The size of digits with an exponent, by their number. -/
theorem plainValue_mul_bounds {c : Char} {rest : List Char} (exponent : ℤ)
    (digits : ∀ d ∈ c :: rest, d.isDigit = true) (first : c ≠ '0') :
    (10 : ℚ) ^ (rest.length + exponent) ≤ plainValue (c :: rest) * 10 ^ exponent ∧
      plainValue (c :: rest) * 10 ^ exponent < (10 : ℚ) ^ ((rest.length + 1 : ℕ) + exponent) := by
  have above : ((tenPow rest.length : ℕ) : ℚ) ≤ plainValue (c :: rest) := by
    exact_mod_cast le_plainValue (digits c List.mem_cons_self) first
  have below : (plainValue (c :: rest) : ℚ) < (tenPow (rest.length + 1) : ℕ) := by
    exact_mod_cast plainValue_lt digits
  rw [cast_tenPow, ← zpow_natCast] at above below
  rw [zpow_ten_add, zpow_ten_add]
  exact ⟨mul_le_mul_of_nonneg_right above (zpow_ten_pos _).le,
    mul_lt_mul_of_pos_right below (zpow_ten_pos _)⟩

end ValueMachine.Number
