import ValueMachine.Proofs.Number.Equality

/-!
# Doubles below and above zero

The logical model of floating point reads a double as the library does, so a comparison with zero can
be said by the exact value: minus zero is not below zero, and NaN is neither below nor above.

Results:
* `unpack_eq`: what the logical model reads;
* `lt_zero_iff`, `zero_le_iff`: comparisons with zero;
* `toCount_of_finite`: the counts that numbers stand for.
-/

namespace ValueMachine.Number

open Float.Model Float.Model.UnpackedFloat

/-! ## The logical model -/

/-- The sign of a double in the logical model. -/
def modelSign (negative : Bool) : Sign := if negative then .negative else .positive

theorem ofBitVec_unpackSign (x : Float) :
    Sign.ofBitVec (@unpackSign .binary64 x.toBits.toBitVec) =
      modelSign (decide (twoPow 63 ≤ x.toBits.toNat)) := by
  have lt : x.toBits.toNat < 18446744073709551616 := x.toBits.toNat_lt
  have two63 : twoPow 63 = 9223372036854775808 := rfl
  have bit : (@unpackSign .binary64 x.toBits.toBitVec).toNat =
      x.toBits.toNat / 9223372036854775808 := by
    show (BitVec.extractLsb 63 63 x.toBits.toBitVec).toNat = _
    rw [BitVec.extractLsb_toNat, Nat.shiftRight_eq_div_pow]
    show x.toBits.toNat / 9223372036854775808 % 2 = _
    omega
  generalize @unpackSign .binary64 x.toBits.toBitVec = sign at bit ⊢
  rw [two63]
  by_cases high : 9223372036854775808 ≤ x.toBits.toNat
  · rw [decide_eq_true high]
    obtain rfl : sign = 1#1 := BitVec.eq_of_toNat_eq (bit.trans (by simp; omega))
    rfl
  · rw [decide_eq_false high]
    obtain rfl : sign = 0#1 := BitVec.eq_of_toNat_eq (bit.trans (by simp; omega))
    rfl

/-- What the logical model reads off a double. -/
theorem unpack_eq (x : Float) : x.toModel.unpack =
    match read x with
    | .nan => .notANumber
    | .infinite negative => .infinity (modelSign negative)
    | .finite negative mantissa exponent =>
      if some : mantissa = 0 then .zero (modelSign negative)
      else .finite (modelSign negative) mantissa exponent (Nat.pos_of_ne_zero some) := by
  have field_eq := (unpackExponent_eq_iff x _).mp rfl
  have fraction_eq := (unpackMantissa_eq_iff x _).mp rfl
  have full := unpackExponent_eq_iff x (-1#11)
  have none := unpackExponent_eq_iff x 0#11
  have empty := unpackMantissa_eq_iff x 0#52
  rw [show (-1#11).toNat = 2047 from rfl] at full
  rw [show (0#11).toNat = 0 from rfl] at none
  rw [show (0#52).toNat = 0 from rfl] at empty
  have sign := ofBitVec_unpackSign x
  show UnpackedFloat.unpack .binary64 x.toBits.toBitVec = _
  rw [read_eq, UnpackedFloat.unpack]
  by_cases isFull : field x = 2047
  · rw [if_pos isFull, if_pos (full.mpr isFull)]
    by_cases isEmpty : fraction x = 0
    · rw [if_pos isEmpty, if_pos (empty.mpr isEmpty), sign]
    · rw [if_neg isEmpty, if_neg (mt empty.mp isEmpty)]
  · rw [if_neg isFull, if_neg (mt full.mp isFull)]
    by_cases isNone : field x = 0
    · rw [if_pos isNone, if_pos (none.mpr isNone)]
      dsimp only
      by_cases isEmpty : fraction x = 0
      · rw [dif_pos isEmpty, dif_pos (empty.mpr isEmpty), sign]
      · rw [dif_neg isEmpty, dif_neg (mt empty.mp isEmpty)]
        refine (finite.injEq ..).mpr ⟨sign, fraction_eq.symm, ?_⟩
        rw [none.mpr isNone]
        rfl
    · have mantissa_eq : (1#1 ++ @unpackMantissa .binary64 x.toBits.toBitVec).toNat =
          twoPow 52 + fraction x := by
        rw [fraction_eq, BitVec.toNat_append, ← Nat.shiftLeft_add_eq_or_of_lt (BitVec.isLt _)]
        rfl
      have pos := twoPow_pos 52
      rw [if_neg isNone, if_neg (mt none.mp isNone)]
      dsimp only
      rw [dif_neg (by omega)]
      refine (finite.injEq ..).mpr ⟨sign, mantissa_eq, ?_⟩
      rw [field_eq]
      rfl

/-! ## Zero -/

/-- A negative number: not zero, and not NaN. -/
def Reading.IsNegative : Reading → Prop
  | .nan => False
  | .infinite negative => negative = true
  | .finite negative mantissa _ => negative = true ∧ mantissa ≠ 0

instance : DecidablePred Reading.IsNegative
  | .nan => inferInstanceAs (Decidable False)
  | .infinite negative => inferInstanceAs (Decidable (negative = true))
  | .finite negative mantissa _ => inferInstanceAs (Decidable (negative = true ∧ mantissa ≠ 0))

theorem isNaN_iff_read (x : Float) : x.isNaN = true ↔ read x = .nan := by
  rw [isNaN_iff, unpack_eq]
  cases read x with
  | nan => simp
  | infinite negative => simp
  | finite negative mantissa exponent =>
    dsimp only
    split <;> simp

theorem unpack_zero : (0.0 : Float).toModel.unpack = .zero .positive := by
  have zero : read 0.0 = .finite false 0 (-1074) := by decide +kernel
  rw [unpack_eq, zero]
  rfl

theorem lt_zero_iff (x : Float) : x < 0.0 ↔ (read x).IsNegative := by
  have compared : x < 0.0 ↔
      (x.toModel.unpack.compare (0.0 : Float).toModel.unpack == some .lt) = true :=
    decide_eq_true_iff (p := x.toModel < (0.0 : Float).toModel)
  rw [compared, beq_iff_eq, unpack_zero, unpack_eq]
  cases read x with
  | nan => simp [Reading.IsNegative, UnpackedFloat.compare]
  | infinite negative =>
    cases negative <;> simp [Reading.IsNegative, modelSign, UnpackedFloat.compare]
  | finite negative mantissa exponent =>
    by_cases none : mantissa = 0
    · simp [Reading.IsNegative, none, UnpackedFloat.compare]
    · cases negative <;> simp [Reading.IsNegative, modelSign, none, UnpackedFloat.compare]

theorem zero_le_iff (x : Float) : 0.0 ≤ x ↔ read x ≠ .nan ∧ ¬(read x).IsNegative := by
  have compared : 0.0 ≤ x ↔
      ((0.0 : Float).toModel.unpack.compare x.toModel.unpack).any (·.isLE) = true :=
    decide_eq_true_iff (p := (0.0 : Float).toModel ≤ x.toModel)
  rw [compared, unpack_zero, unpack_eq]
  cases read x with
  | nan => simp [UnpackedFloat.compare]
  | infinite negative =>
    cases negative <;> simp [Reading.IsNegative, modelSign, UnpackedFloat.compare]
  | finite negative mantissa exponent =>
    by_cases none : mantissa = 0
    · simp [Reading.IsNegative, none, UnpackedFloat.compare]
    · cases negative <;> simp [Reading.IsNegative, modelSign, none, UnpackedFloat.compare]

/-! ## Counts -/

/-- The integer part of a finite number without its sign. -/
def Reading.wholePart (mantissa : Nat) (exponent : Int) : Nat :=
  numerator mantissa exponent / denominator exponent

/-- Counts have 64 bits, so that greater numbers stand for the greatest count. -/
theorem toCount_of_finite {x : Float} {negative : Bool} {mantissa : Nat} {exponent : Int}
    (h : read x = .finite negative mantissa exponent) (notNegative : ¬(read x).IsNegative) :
    toCount x = min (twoPow 64 - 1) (Reading.wholePart mantissa exponent) := by
  rw [h, Reading.IsNegative] at notNegative
  have two64 : twoPow 64 = 18446744073709551616 := rfl
  have signed : (if negative then -(Reading.wholePart mantissa exponent : Int)
      else Reading.wholePart mantissa exponent) = Reading.wholePart mantissa exponent := by
    cases negative with
    | false => rfl
    | true =>
      have none : mantissa = 0 := by simpa using notNegative
      have zero : Reading.wholePart mantissa exponent = 0 := by
        rw [Reading.wholePart, none, numerator, Nat.zero_mul, Nat.zero_div]
      rw [zero]
      rfl
  rw [toCount, toInt, h]
  show (max 0 (min ((twoPow 64 : Int) - 1)
    (if negative then -(Reading.wholePart mantissa exponent : Int)
      else Reading.wholePart mantissa exponent))).toNat = _
  rw [signed, two64]
  push_cast
  omega

end ValueMachine.Number
