import ValueMachine.Proofs.Json.Integers
import ValueMachine.Proofs.Number.Reading

/-!
# The plain form of a number

Integers below `10 ^ 15` are written in full, and that is their general form too. So the two forms
in which numbers are turned to texts are one.

Results:
* `unpack_of_finite`, `unpack_abs`: the parts of a finite double and of its magnitude;
* `plain_eq_general`: the plain form of a finite double is its general form.
-/

namespace ValueMachine.Number

open Float.Model Float.Model.UnpackedFloat

/-! ## Magnitudes -/

theorem unpackSign_packComponents (sign : Sign) (exponent : BitVec 11) (mantissa : BitVec 52) :
    unpackSign (packComponents .binary64 sign exponent mantissa) = sign.toBitVec := by
  refine BitVec.eq_of_getLsbD_eq fun i hi => ?_
  obtain rfl : i = 0 := by omega
  simp only [unpackSign, packComponents, BitVec.getLsbD_cast, BitVec.getLsbD_extractLsb]
  show (true && ((sign.toBitVec ++ exponent : BitVec 12) ++ mantissa).getLsbD 63) = _
  rw [BitVec.getLsbD_append, BitVec.getLsbD_append]
  rfl

/-- Bits without their sign are those of the magnitude. -/
theorem unpack_packComponents_positive (b : BitVec Format.binary64.numBits) :
    UnpackedFloat.unpack .binary64
        (packComponents .binary64 .positive (unpackExponent b) (unpackMantissa b)) =
      (UnpackedFloat.unpack .binary64 b).abs := by
  have sign : Sign.ofBitVec (unpackSign (packComponents .binary64 .positive (unpackExponent b)
      (unpackMantissa b))) = .positive := by
    rw [unpackSign_packComponents]; rfl
  unfold UnpackedFloat.unpack
  simp only [unpackExponent_packComponents, unpackMantissa_packComponents, sign]
  split
  · split <;> rfl
  · split
    · split <;> rfl
    · rfl

/-- The magnitude of a finite double has its parts. -/
theorem unpack_abs {x : Float} (finite : x.isFinite = true) :
    x.abs.toModel.unpack = x.toModel.unpack.abs := by
  rw [isFinite_eq, decide_eq_true_iff] at finite
  have same := unpack_packComponents_positive x.toBits.toBitVec
  have valid : Format.binary64.Valid (packComponents .binary64 .positive
      (@unpackExponent .binary64 x.toBits.toBitVec) (unpackMantissa x.toBits.toBitVec)) := by
    refine ⟨fun full => ?_⟩
    rw [unpackExponent_packComponents] at full
    exact absurd ((unpackExponent_eq_iff x _).mp full) finite
  show UnpackedFloat.unpack .binary64 (UnpackedFloat.pack .binary64
    (UnpackedFloat.unpack .binary64 x.toBits.toBitVec).abs) = _
  rw [← same, pack_unpack valid, same]
  rfl

/-- The parts of a double that is read as a finite number other than zero. -/
theorem unpack_of_finite {x : Float} {negative : Bool} {mantissa : Nat} {exponent : Int}
    (h : read x = .finite negative mantissa exponent) (some : mantissa ≠ 0) :
    ∃ sign pos, x.toModel.unpack = .finite sign mantissa exponent pos := by
  have field_eq := (unpackExponent_eq_iff x _).mp rfl
  have fraction_eq := (unpackMantissa_eq_iff x _).mp rfl
  rw [read_eq] at h
  split at h
  · split at h <;> cases h
  next notFull =>
    have notOnes : ¬@unpackExponent .binary64 x.toBits.toBitVec = -1#11 :=
      fun ones => notFull ((unpackExponent_eq_iff x _).mp ones)
    show ∃ sign pos, UnpackedFloat.unpack .binary64 x.toBits.toBitVec = _
    rw [UnpackedFloat.unpack, if_neg notOnes]
    split at h
    · next empty =>
      have zeros := (unpackExponent_eq_iff x 0#11).mpr empty
      cases h
      have notZero : ¬@unpackMantissa .binary64 x.toBits.toBitVec = 0#52 :=
        fun none => some ((unpackMantissa_eq_iff x _).mp none)
      rw [if_pos zeros, dif_neg notZero, zeros]
      exact ⟨_, Nat.pos_of_ne_zero some, (finite.injEq ..).mpr ⟨rfl, fraction_eq.symm, rfl⟩⟩
    · next notEmpty =>
      have notZeros : ¬@unpackExponent .binary64 x.toBits.toBitVec = 0#11 :=
        fun zeros => notEmpty ((unpackExponent_eq_iff x _).mp zeros)
      have mantissa_eq : (1#1 ++ @unpackMantissa .binary64 x.toBits.toBitVec).toNat =
          twoPow 52 + fraction x := by
        rw [fraction_eq, BitVec.toNat_append, ← Nat.shiftLeft_add_eq_or_of_lt (BitVec.isLt _)]
        rfl
      cases h
      rw [if_neg notZeros]
      refine ⟨_, Nat.pos_of_ne_zero some, (finite.injEq ..).mpr ⟨rfl, mantissa_eq, ?_⟩⟩
      rw [field_eq]
      rfl

/-- A double of a smaller magnitude has no greater exponent. -/
theorem exponent_le_of_abs_lt {x y : Float} {negative negative' : Bool} {mantissa mantissa' : Nat}
    {exponent exponent' : Int} (h : read x = .finite negative mantissa exponent)
    (h' : read y = .finite negative' mantissa' exponent') (some' : mantissa' ≠ 0)
    (less : x.abs < y) : exponent ≤ exponent' := by
  by_cases some : mantissa = 0
  · have lowest := (isCanonical_of_finite h).full
    have least := (isCanonical_of_finite h').least
    have := twoPow_pos 52
    omega
  · obtain ⟨sign, pos, parts⟩ := unpack_of_finite h some
    obtain ⟨sign', pos', parts'⟩ := unpack_of_finite h' some'
    have compared : (x.abs.toModel.unpack.compare y.toModel.unpack == Option.some .lt) = true :=
      of_decide_eq_true (p := x.abs.toModel < y.toModel) less
    rw [unpack_abs (isFinite_iff.mpr ⟨_, _, _, h⟩), parts, parts', beq_iff_eq] at compared
    cases sign' with
    | positive =>
      have order : (compare exponent exponent').then (compare mantissa mantissa') = .lt :=
        Option.some.inj compared
      rw [Ordering.then_eq_lt, Int.compare_eq_lt, Int.compare_eq_eq] at order
      omega
    | negative => cases compared

/-! ## Texts -/

/-- The plain form of a finite number is its general form: whole numbers below `10 ^ 15` are written
in full in both. -/
theorem plain_eq_general {x : Float} (finite : x.isFinite = true) :
    plain x = general x standardPrecision := by
  obtain ⟨negative, mantissa, exponent, h⟩ := isFinite_iff.mp finite
  by_cases whole : isWhole x && x.abs < 1e15
  · rw [plain, if_pos whole]
    rw [Bool.and_eq_true, decide_eq_true_iff, isWhole, h, decide_eq_true_iff] at whole
    obtain ⟨divides, less⟩ := whole
    have ten : read 1e15 = .finite false 8000000000000000 (-3) := by decide +kernel
    have low : exponent ≤ -3 := exponent_le_of_abs_lt h ten (by decide) less
    have unscaled : numerator mantissa exponent = mantissa := by
      rw [numerator, show exponent.toNat = 0 by omega]
      exact Nat.mul_one mantissa
    have value : numerator mantissa exponent =
        mantissa / denominator exponent * denominator exponent := by
      rw [unscaled, Nat.div_mul_cancel (Nat.dvd_of_mod_eq_zero divides)]
    have lt : mantissa / denominator exponent < tenPow 16 := by
      calc mantissa / denominator exponent ≤ mantissa := Nat.div_le_self ..
        _ < twoPow 53 := (isCanonical_of_finite h).small
        _ < tenPow 16 := by decide
    rw [general_of_whole h value lt, wholeText, h]
    dsimp only
    have rounded : scaled (numerator mantissa exponent) (denominator exponent) 0 =
        mantissa / denominator exponent := by
      rw [scaled, value, show tenPow 0 = 1 from rfl, Nat.mul_one,
        roundDiv_mul_self _ (denominator_pos exponent)]
    rw [fixedText, rounded]
    show signText negative ++ digits (_ / 1) = _
    rw [Nat.div_one]
  · rw [plain, if_neg whole]

end ValueMachine.Number
