import ValueMachine.Proofs.Number.Exact

/-!
# Readings of doubles

A double is read field by field, and so it is in the logical model of floating point. Both agree on
what is finite and what is not.

Results:
* `isFinite_iff`, `isInf_iff`: which doubles are finite and which are infinities;
* `toBits_of_infinite`, `toBits_of_finite`: the bits of a double, by its reading.
-/

namespace ValueMachine.Number

open Float.Model Float.Model.UnpackedFloat

/-! ## Fields -/

/-- The exponent field of a double. -/
def field (x : Float) : Nat := x.toBits.toNat / twoPow 52 % twoPow 11

/-- The fraction field of a double. -/
def fraction (x : Float) : Nat := x.toBits.toNat % twoPow 52

theorem unpackExponent_eq_iff (x : Float) (e : BitVec 11) :
    @unpackExponent .binary64 x.toBits.toBitVec = e ↔ field x = e.toNat := by
  rw [← BitVec.toNat_inj]
  show (BitVec.extractLsb 62 52 x.toBits.toBitVec).toNat = _ ↔ _
  rw [BitVec.extractLsb_toNat, Nat.shiftRight_eq_div_pow]
  rfl

theorem unpackMantissa_eq_iff (x : Float) (f : BitVec 52) :
    @unpackMantissa .binary64 x.toBits.toBitVec = f ↔ fraction x = f.toNat := by
  rw [← BitVec.toNat_inj]
  show (BitVec.extractLsb 51 0 x.toBits.toBitVec).toNat = _ ↔ _
  rw [BitVec.extractLsb_toNat, Nat.shiftRight_zero]
  rfl

theorem isFinite_eq (x : Float) : x.isFinite = decide (field x ≠ 2047) := by
  show (UnpackedFloat.unpack .binary64 x.toBits.toBitVec).isFinite = _
  have full := unpackExponent_eq_iff x (-1#11)
  have top : (-1#11).toNat = 2047 := rfl
  rw [top] at full
  rw [UnpackedFloat.unpack]
  by_cases h : field x = 2047
  · rw [if_pos (full.mpr h)]
    split <;> simp [UnpackedFloat.isFinite, h]
  · rw [if_neg fun eq => h (full.mp eq)]
    split
    · split <;> simp [UnpackedFloat.isFinite, h]
    · simp [UnpackedFloat.isFinite, h]

theorem isInf_eq (x : Float) : x.isInf = decide (field x = 2047 ∧ fraction x = 0) := by
  show (UnpackedFloat.unpack .binary64 x.toBits.toBitVec).isInf = _
  have full := unpackExponent_eq_iff x (-1#11)
  have top : (-1#11).toNat = 2047 := rfl
  have empty := unpackMantissa_eq_iff x 0#52
  have bottom : (0#52).toNat = 0 := rfl
  rw [top] at full
  rw [bottom] at empty
  rw [UnpackedFloat.unpack]
  by_cases h : field x = 2047
  · rw [if_pos (full.mpr h)]
    by_cases h' : fraction x = 0
    · rw [if_pos (empty.mpr h')]
      simp [UnpackedFloat.isInf, h, h']
    · rw [if_neg fun eq => h' (empty.mp eq)]
      simp [UnpackedFloat.isInf, h']
  · rw [if_neg fun eq => h (full.mp eq)]
    split
    · split <;> simp [UnpackedFloat.isInf, h]
    · simp [UnpackedFloat.isInf, h]

/-! ## Readings -/

theorem read_eq (x : Float) : read x =
    if field x = 2047 then
      if fraction x = 0 then .infinite (decide (twoPow 63 ≤ x.toBits.toNat)) else .nan
    else if field x = 0 then .finite (decide (twoPow 63 ≤ x.toBits.toNat)) (fraction x) (-1074)
    else .finite (decide (twoPow 63 ≤ x.toBits.toNat)) (twoPow 52 + fraction x) (field x - 1075) := rfl

theorem isFinite_iff {x : Float} :
    x.isFinite = true ↔ ∃ negative mantissa exponent, read x = .finite negative mantissa exponent := by
  rw [isFinite_eq, read_eq]
  split
  · split <;> simp [*]
  · split <;> simp [*]

theorem isInf_iff {x : Float} : x.isInf = true ↔ ∃ negative, read x = .infinite negative := by
  rw [isInf_eq, read_eq]
  split
  · split <;> simp [*]
  · split <;> simp [*]

/-! ## Bits -/

/-- The sign bit. -/
def signBits (negative : Bool) : Nat := if negative then twoPow 63 else 0

/-- The bits of a finite double without its sign. -/
def magnitudeBits (mantissa : Nat) (exponent : Int) : Nat :=
  (exponent + 1074).toNat * twoPow 52 + mantissa

/-- A mantissa and an exponent such as readings have. -/
structure IsCanonical (mantissa : Nat) (exponent : Int) : Prop where
  small : mantissa < twoPow 53
  least : -1074 ≤ exponent
  full : twoPow 52 ≤ mantissa ∨ exponent = -1074

theorem isCanonical_of_finite {x : Float} {negative : Bool} {mantissa : Nat} {exponent : Int}
    (h : read x = .finite negative mantissa exponent) : IsCanonical mantissa exponent := by
  obtain ⟨_, small, least, full⟩ := Reading.ofBits_eq_finite x.toBits.toNat_lt h
  exact ⟨small, least, full⟩

theorem toBits_of_finite {x : Float} {negative : Bool} {mantissa : Nat} {exponent : Int}
    (h : read x = .finite negative mantissa exponent) :
    x.toBits.toNat = signBits negative + magnitudeBits mantissa exponent :=
  (Reading.ofBits_eq_finite x.toBits.toNat_lt h).1

/-- The bits of an infinity are above those of every finite double. -/
theorem magnitudeBits_lt {x : Float} {negative : Bool} {mantissa : Nat} {exponent : Int}
    (h : read x = .finite negative mantissa exponent) :
    magnitudeBits mantissa exponent < infinityBits := by
  have small := (isCanonical_of_finite h).small
  have two52 : twoPow 52 = 4503599627370496 := rfl
  have two53 : twoPow 53 = 9007199254740992 := rfl
  have bound : exponent ≤ 971 := by
    have lt : field x < 2048 := Nat.mod_lt _ (twoPow_pos 11)
    rw [read_eq] at h
    split at h
    · split at h <;> cases h
    split at h <;> cases h <;> omega
  rw [magnitudeBits, infinityBits, two52]
  rw [two53] at small
  omega

theorem toBits_of_infinite {x : Float} {negative : Bool} (h : read x = .infinite negative) :
    x.toBits.toNat = signBits negative + infinityBits := by
  have lt : x.toBits.toNat < 18446744073709551616 := x.toBits.toNat_lt
  have two11 : twoPow 11 = 2048 := rfl
  have two52 : twoPow 52 = 4503599627370496 := rfl
  have two63 : twoPow 63 = 9223372036854775808 := rfl
  rw [read_eq] at h
  split at h
  · next full =>
    split at h
    · next empty =>
      cases h
      rw [field, two52, two11] at full
      rw [fraction, two52] at empty
      rw [signBits, infinityBits, two52, two63]
      split <;> simp_all <;> omega
    · cases h
  · split at h <;> cases h

end ValueMachine.Number
