import ValueMachine.Proofs.Number.Reading

/-!
# The total order of doubles

IEEE 754 gives every double a place: by value, minus zero before zero, the infinities at the ends and
NaNs beyond the infinity of their sign, those with larger fractions further out.

Results:
* `totalKey_le_iff`: the keys of doubles are ordered as their places are.
-/

namespace ValueMachine.Number

/-! ## Places -/

/-- The magnitude of a finite double in units of the least positive one. -/
def units (mantissa : Nat) (exponent : Int) : Nat := mantissa * twoPow (exponent + 1074).toNat

/-- A magnitude with its sign. -/
def signed (negative : Bool) (magnitude : Nat) : Int :=
  if negative then -(magnitude : Int) else magnitude

/-- What tells a double from all others. -/
inductive Place where
  | nan (n : NaN)
  | infinite (negative : Bool)
  | finite (negative : Bool) (mantissa : Nat) (exponent : Int)

/-- The place of a double; a NaN is the one that is given. -/
def place (x : Float) (n : NaN) : Place :=
  match read x with
  | .nan => .nan n
  | .infinite negative => .infinite negative
  | .finite negative m e => .finite negative m e

/-- The first place is before the second one, or the same. -/
def Place.TotalLE : Place → Place → Prop
  | .nan n, .nan n' => signed n.negative n.fraction ≤ signed n'.negative n'.fraction
  | .nan n, _ => n.negative = true
  | _, .nan n => n.negative = false
  | .infinite true, _ => True
  | _, .infinite false => True
  | .infinite false, _ => False
  | _, .infinite true => False
  | .finite negative m e, .finite negative' m' e' =>
    signed negative (units m e) < signed negative' (units m' e') ∨
      signed negative (units m e) = signed negative' (units m' e') ∧
        (negative' = true → negative = true)

/-! ## Magnitudes -/

section Magnitudes

variable {m m' : Nat} {e e' : Int}

theorem IsCanonical.lt_of_lt (h : IsCanonical m e) (h' : IsCanonical m' e') (lt : e < e') :
    magnitudeBits m e < magnitudeBits m' e' ∧ units m e < units m' e' := by
  have small := h.small
  have least := h.least
  have large : twoPow 52 ≤ m' := h'.full.resolve_right (by omega)
  have two53 : twoPow 53 = twoPow 52 * twoPow 1 := twoPow_add 52 1
  obtain ⟨k, rfl⟩ : ∃ k : Nat, e = k - 1074 := ⟨(e + 1074).toNat, by omega⟩
  obtain ⟨l, rfl⟩ : ∃ l : Nat, e' = k + 1 + l - 1074 := ⟨(e' - k + 1073).toNat, by omega⟩
  have hk : ((k : Int) - 1074 + 1074).toNat = k := by omega
  have hl : ((k : Int) + 1 + l - 1074 + 1074).toNat = k + 1 + l := by omega
  rw [magnitudeBits, magnitudeBits, units, units, hk, hl]
  constructor
  · have two52 : twoPow 52 = 4503599627370496 := rfl
    have two53 : twoPow 53 = 9007199254740992 := rfl
    rw [two52] at large ⊢
    rw [two53] at small
    omega
  · calc m * twoPow k < twoPow 53 * twoPow k := Nat.mul_lt_mul_of_pos_right small (twoPow_pos k)
      _ = twoPow 52 * twoPow (k + 1) := by rw [two53, twoPow_add k 1]; ring
      _ ≤ m' * twoPow (k + 1) := Nat.mul_le_mul_right _ large
      _ ≤ m' * twoPow (k + 1 + l) := by
        rw [twoPow_add (k + 1) l]
        exact Nat.mul_le_mul_left _ (Nat.le_mul_of_pos_right _ (twoPow_pos l))

/-- Magnitudes are ordered as their bits are. -/
theorem IsCanonical.units_le_iff (h : IsCanonical m e) (h' : IsCanonical m' e') :
    units m e ≤ units m' e' ↔ magnitudeBits m e ≤ magnitudeBits m' e' := by
  rcases lt_trichotomy e e' with lt | rfl | gt
  · have := h.lt_of_lt h' lt
    omega
  · rw [magnitudeBits, magnitudeBits, units, units, Nat.add_le_add_iff_left]
    exact Nat.mul_le_mul_right_iff (twoPow_pos _)
  · have := h'.lt_of_lt h gt
    omega

end Magnitudes

/-! ## Keys -/

theorem orderKey_of_toBits {x : Float} {negative : Bool} {magnitude : Nat}
    (bits : x.toBits.toNat = signBits negative + magnitude) (lt : magnitude < twoPow 63) :
    orderKey (twoPow 63 ≤ x.toBits.toNat) (x.toBits.toNat % twoPow 63) =
      orderKey negative magnitude := by
  rw [bits, signBits]
  cases negative <;> simp [orderKey, Nat.mod_eq_of_lt lt, Nat.not_le.mpr lt]

/-- The key of a double, by its place. -/
def Place.key : Place → Int
  | .nan n => orderKey n.negative n.magnitudeBits
  | .infinite negative => orderKey negative infinityBits
  | .finite negative m e => orderKey negative (magnitudeBits m e)

theorem totalKey_eq (x : Float) (n : NaN) : totalKey x n = (place x n).key := by
  have infinity_lt : infinityBits < twoPow 63 := by decide
  rw [totalKey, place]
  cases h : read x with
  | nan => rfl
  | infinite negative => exact orderKey_of_toBits (toBits_of_infinite h) infinity_lt
  | finite negative m e =>
    exact orderKey_of_toBits (toBits_of_finite h) ((magnitudeBits_lt h).trans infinity_lt)

/-- Finite places hold canonical magnitudes, which are below that of an infinity. -/
def Place.IsCanonical : Place → Prop
  | .finite _ m e => Number.IsCanonical m e ∧ magnitudeBits m e < infinityBits
  | _ => True

theorem isCanonical_place (x : Float) (n : NaN) : (place x n).IsCanonical := by
  rw [place]
  cases h : read x with
  | finite negative m e => exact ⟨isCanonical_of_finite h, magnitudeBits_lt h⟩
  | _ => trivial

/-- Keys are ordered as places are. -/
theorem Place.key_le_iff {p q : Place} (hp : p.IsCanonical) (hq : q.IsCanonical) :
    p.key ≤ q.key ↔ p.TotalLE q := by
  cases p with
  | nan n =>
    have := n.fraction_pos
    cases q with
    | nan n' =>
      have := n'.fraction_pos
      rw [TotalLE, key, key, NaN.magnitudeBits, NaN.magnitudeBits]
      cases n.negative <;> cases n'.negative <;> simp [orderKey, signed] <;> omega
    | infinite negative' =>
      rw [TotalLE, key, key, NaN.magnitudeBits]
      · cases n.negative <;> cases negative' <;> simp [orderKey] <;> omega
      · simp
    | finite negative' m' e' =>
      have := hq.2
      rw [TotalLE, key, key, NaN.magnitudeBits]
      · cases n.negative <;> cases negative' <;> simp [orderKey] <;> omega
      · simp
  | infinite negative =>
    cases q with
    | nan n' =>
      have := n'.fraction_pos
      rw [TotalLE, key, key, NaN.magnitudeBits]
      · cases negative <;> cases n'.negative <;> simp [orderKey] <;> omega
      · simp
    | infinite negative' =>
      cases negative <;> cases negative' <;> simp [TotalLE, key, orderKey]
      omega
    | finite negative' m' e' =>
      have := hq.2
      cases negative <;> cases negative' <;> simp [TotalLE, key, orderKey] <;> omega
  | finite negative m e =>
    have inside := hp.2
    cases q with
    | nan n' =>
      rw [TotalLE, key, key, NaN.magnitudeBits]
      · cases negative <;> cases n'.negative <;> simp [orderKey] <;> omega
      · simp
    | infinite negative' =>
      cases negative <;> cases negative' <;> simp [TotalLE, key, orderKey] <;> omega
    | finite negative' m' e' =>
      have le := hp.1.units_le_iff hq.1
      have ge := hq.1.units_le_iff hp.1
      cases negative <;> cases negative' <;> simp [TotalLE, key, orderKey, signed] <;> omega

/-- The keys of doubles are ordered as their places are. -/
theorem totalKey_le_iff (x y : Float) (n n' : NaN) :
    totalKey x n ≤ totalKey y n' ↔ (place x n).TotalLE (place y n') := by
  rw [totalKey_eq, totalKey_eq]
  exact Place.key_le_iff (isCanonical_place x n) (isCanonical_place y n')

end ValueMachine.Number
