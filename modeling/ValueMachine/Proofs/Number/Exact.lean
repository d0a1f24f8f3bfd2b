import Mathlib
import ValueMachine.Number.Rounding

/-!
# Doubles and their exact values

Results:
* `ofBits_toBits`: a double is that of its bits;
* `Reading.ofBits_eq_finite`: the bits of a finite double, by its exact value.
-/

namespace ValueMachine.Number

open Float.Model Float.Model.UnpackedFloat

/-! ## Bits -/

theorem packComponents_parts (b : BitVec Format.binary64.numBits) :
    packComponents .binary64 (Sign.ofBitVec (unpackSign b)) (unpackExponent b) (unpackMantissa b) =
      b := by
  have sign : (Sign.ofBitVec (unpackSign b)).toBitVec = unpackSign b := by
    generalize unpackSign b = s
    revert s; decide
  rw [packComponents, sign]
  refine BitVec.eq_of_getLsbD_eq fun i hi => ?_
  have lt : i < 64 := hi
  simp only [unpackSign, unpackExponent, unpackMantissa, BitVec.getLsbD_append, BitVec.getLsbD_cast,
    BitVec.getLsbD_extractLsb]
  by_cases mantissa : i < 52
  · simp [mantissa]
  by_cases exponent : i < 63
  · have same : 52 + (i - 52) = i := by omega
    simp [mantissa, same, show i - 52 < 11 by omega]
  · obtain rfl : i = 63 := by omega
    rfl

/-- Infinities, and the one pattern that is no number. -/
theorem pack_unpack_of_full {b : BitVec Format.binary64.numBits} (valid : Format.binary64.Valid b)
    (full : unpackExponent b = -1#_) :
    UnpackedFloat.pack .binary64 (UnpackedFloat.unpack .binary64 b) = b := by
  have whole := packComponents_parts b
  rw [UnpackedFloat.unpack, if_pos full]
  by_cases infinite : unpackMantissa b = 0#_
  · rw [if_pos infinite, UnpackedFloat.pack, packedInfinity]
    rw [full, infinite] at whole
    exact whole
  · rw [if_neg infinite, UnpackedFloat.pack]
    exact (valid.eq_packedNaN full infinite).symm

/-- Zeros, and numbers below the normal ones. -/
theorem pack_unpack_of_empty {b : BitVec Format.binary64.numBits} (empty : unpackExponent b = 0#_) :
    UnpackedFloat.pack .binary64 (UnpackedFloat.unpack .binary64 b) = b := by
  have whole := packComponents_parts b
  have notFull : unpackExponent b ≠ -1#_ := by rw [empty]; decide
  rw [UnpackedFloat.unpack, if_neg notFull, if_pos empty]
  by_cases zero : unpackMantissa b = 0#_
  · rw [dif_pos zero, UnpackedFloat.pack, packedZero]
    rw [empty, zero] at whole
    exact whole
  · have mantissa_lt : (unpackMantissa b).toNat < 2 ^ 52 := (unpackMantissa b).isLt
    have pos : (unpackMantissa b).toNat ≠ 0 := fun eq => zero (BitVec.eq_of_toNat_eq eq)
    have short : Nat.log2 (unpackMantissa b).toNat < 52 := (Nat.log2_lt pos).mpr mantissa_lt
    have biased : (((unpackExponent b).toNat : Int) - (Format.binary64.exponentBias + (52 : Nat)) +
        1 + Format.binary64.exponentBias + (52 : Nat)).toNat = 1 := by
      rw [empty]
      show (((0 : Nat) : Int) - _ + 1 + _ + _).toNat = 1
      omega
    have subnormal : Nat.log2 (unpackMantissa b).toNat + 1 ≠ Format.binary64.mantissaBits := by
      show _ ≠ 53
      omega
    rw [dif_neg zero, UnpackedFloat.pack]
    dsimp only
    rw [biased, if_neg (by decide), if_neg subnormal, BitVec.ofNat_toNat, BitVec.setWidth_eq]
    rw [empty] at whole
    exact whole

/-- Normal numbers, whose mantissa has a leading one that is not written. -/
theorem pack_unpack_of_normal {b : BitVec Format.binary64.numBits}
    (notFull : unpackExponent b ≠ -1#_) (notEmpty : unpackExponent b ≠ 0#_) :
    UnpackedFloat.pack .binary64 (UnpackedFloat.unpack .binary64 b) = b := by
  have mantissa_lt : (unpackMantissa b).toNat < 2 ^ 52 := (unpackMantissa b).isLt
  have exponent_lt : (unpackExponent b).toNat < 2047 := by
    have ne : (unpackExponent b).toNat ≠ (-1#11).toNat :=
      fun eq => notFull (BitVec.eq_of_toNat_eq eq)
    have lt : (unpackExponent b).toNat < 2048 := (unpackExponent b).isLt
    have : (-1#11).toNat = 2047 := rfl
    omega
  have biased : (((unpackExponent b).toNat : Int) - (Format.binary64.exponentBias + (52 : Nat)) +
      Format.binary64.exponentBias + (52 : Nat)).toNat = (unpackExponent b).toNat := by omega
  have mantissa : (1#1 ++ unpackMantissa b).toNat = 2 ^ 52 + (unpackMantissa b).toNat := by
    rw [BitVec.toNat_append, ← Nat.shiftLeft_add_eq_or_of_lt mantissa_lt]
    rfl
  have normal : Nat.log2 (1#1 ++ unpackMantissa b).toNat + 1 = Format.binary64.mantissaBits := by
    have eq : Nat.log2 (1#1 ++ unpackMantissa b).toNat = 52 := by
      rw [Nat.log2_eq_iff (by omega)]
      omega
    rw [eq]; rfl
  have fraction : BitVec.ofNat 52 (1#1 ++ unpackMantissa b).toNat = unpackMantissa b := by
    refine BitVec.eq_of_toNat_eq ?_
    rw [BitVec.toNat_ofNat, mantissa]
    omega
  have exponent : BitVec.ofNat 11 (unpackExponent b).toNat = unpackExponent b :=
    BitVec.ofNat_toNat ..
  rw [UnpackedFloat.unpack, if_neg notFull, if_neg notEmpty, UnpackedFloat.pack]
  dsimp only
  rw [biased, if_neg (by omega), if_pos normal, fraction, exponent]
  exact packComponents_parts b

theorem pack_unpack {b : BitVec Format.binary64.numBits} (valid : Format.binary64.Valid b) :
    UnpackedFloat.pack .binary64 (UnpackedFloat.unpack .binary64 b) = b := by
  by_cases full : unpackExponent b = -1#_
  · exact pack_unpack_of_full valid full
  by_cases empty : unpackExponent b = 0#_
  · exact pack_unpack_of_empty empty
  · exact pack_unpack_of_normal full empty

/-- A double is that of its bits. -/
theorem ofBits_toBits (x : Float) : Float.ofBits x.toBits = x := by
  obtain ⟨⟨bits, valid⟩⟩ := x
  show Float.ofModel ⟨UInt64.ofBitVec _, _⟩ = _
  congr
  exact pack_unpack valid

/-! ## Finite doubles -/

theorem twoPow_add (m n : Nat) : twoPow (m + n) = twoPow m * twoPow n := by
  rw [twoPow_eq, twoPow_eq, twoPow_eq]
  exact Nat.pow_add 2 m n

/-- The bits of a finite double, by its exact value. -/
theorem Reading.ofBits_eq_finite {bits : Nat} (lt : bits < twoPow 64) {negative : Bool}
    {mantissa : Nat} {exponent : Int}
    (h : Reading.ofBits bits = .finite negative mantissa exponent) :
    bits = (if negative then twoPow 63 else 0) +
        ((exponent + 1074).toNat * twoPow 52 + mantissa) ∧
      mantissa < twoPow 53 ∧ -1074 ≤ exponent ∧ (twoPow 52 ≤ mantissa ∨ exponent = -1074) := by
  have two11 : twoPow 11 = 2048 := rfl
  have two52 : twoPow 52 = 4503599627370496 := rfl
  have two53 : twoPow 53 = 9007199254740992 := rfl
  have two63 : twoPow 63 = 9223372036854775808 := rfl
  have two64 : twoPow 64 = 18446744073709551616 := rfl
  rw [Reading.ofBits, two11, two52, two63] at h
  rw [two64] at lt
  rw [two52, two53, two63]
  have sign : ∀ b : Bool, decide (9223372036854775808 ≤ bits) = b →
      bits = (if b then 9223372036854775808 else 0) +
        (bits / 4503599627370496 % 2048 * 4503599627370496 + bits % 4503599627370496) := by
    rintro (_ | _) eq
    · have := of_decide_eq_false eq
      rw [if_neg Bool.false_ne_true]
      omega
    · have := of_decide_eq_true eq
      rw [if_pos rfl]
      omega
  have fraction_lt : bits % 4503599627370496 < 4503599627370496 := Nat.mod_lt _ (by decide)
  generalize bits / 4503599627370496 % 2048 = field at h sign
  generalize bits % 4503599627370496 = fraction at h sign fraction_lt
  split at h
  · split at h <;> cases h
  split at h
  · next empty =>
    cases h
    have whole := sign _ rfl
    rw [empty] at whole
    refine ⟨whole, ?_, le_rfl, .inr rfl⟩
    omega
  · next full notEmpty =>
    cases h
    have whole := sign _ rfl
    refine ⟨whole.trans (congrArg _ ?_), ?_, ?_, .inl ?_⟩
    · omega
    · omega
    · omega
    · omega

end ValueMachine.Number
