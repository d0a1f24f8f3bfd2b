import ValueMachine.Proofs.Number.Reading

/-!
# Equality of doubles

Doubles are equal if they stand for one amount, and a NaN equals nothing. With the NaNs equal to
each other, doubles are equal exactly if their amounts are.

Results:
* `beq_iff_amount_eq`: equality of doubles by their amounts;
* `equivalence_same`: equality with equal NaNs is an equivalence.
-/

namespace ValueMachine.Number

open Float.Model

/-- The amount that the parts of a double stand for: both zeros are one. -/
def amount : UnpackedFloat → UnpackedFloat
  | .zero _ => .zero .positive
  | u => u

theorem compare_eq_iff (a b : UnpackedFloat) :
    UnpackedFloat.compare a b = some .eq ↔ a ≠ .notANumber ∧ amount a = amount b := by
  cases a with
  | infinity s =>
    cases b with
    | infinity t =>
      cases s <;> cases t <;> simp [UnpackedFloat.compare, amount] <;> decide
    | _ => cases s <;> simp [UnpackedFloat.compare, amount]
  | notANumber => simp [UnpackedFloat.compare]
  | zero s =>
    cases b with
    | infinity t => cases t <;> simp [UnpackedFloat.compare, amount]
    | notANumber => simp [UnpackedFloat.compare, amount]
    | zero t => simp [UnpackedFloat.compare, amount]
    | finite t m e pos => cases t <;> simp [UnpackedFloat.compare, amount]
  | finite s m e pos =>
    cases b with
    | infinity t => cases t <;> simp [UnpackedFloat.compare, amount]
    | notANumber => simp [UnpackedFloat.compare, amount]
    | zero t => cases s <;> simp [UnpackedFloat.compare, amount]
    | finite t m' e' pos' =>
      cases s <;> cases t <;>
        simp [UnpackedFloat.compare, amount, Ordering.then_eq_eq, and_comm]

theorem isNaN_iff (x : Float) : x.isNaN = true ↔ x.toModel.unpack = .notANumber := by
  show x.toModel.unpack.isNaN = true ↔ _
  cases x.toModel.unpack <;> simp [UnpackedFloat.isNaN]

/-- Doubles are equal if they stand for one amount, which NaN has not. -/
theorem beq_iff_amount_eq (x y : Float) : (x == y) = true ↔
    ¬x.isNaN = true ∧ amount x.toModel.unpack = amount y.toModel.unpack := by
  show (UnpackedFloat.compare x.toModel.unpack y.toModel.unpack == some .eq) = true ↔ _
  rw [beq_iff_eq, compare_eq_iff, isNaN_iff]

/-- Equal, or both NaN. -/
def Same (x y : Float) : Prop := (x == y || (x.isNaN && y.isNaN)) = true

theorem same_iff_amount_eq (x y : Float) :
    Same x y ↔ amount x.toModel.unpack = amount y.toModel.unpack := by
  have nan (u : UnpackedFloat) : amount u = .notANumber ↔ u = .notANumber := by
    cases u <;> simp [amount]
  rw [Same, Bool.or_eq_true, Bool.and_eq_true, beq_iff_amount_eq, isNaN_iff, isNaN_iff]
  constructor
  · rintro (⟨_, eq⟩ | ⟨hx, hy⟩)
    · exact eq
    · rw [hx, hy]
  · intro eq
    by_cases hx : x.toModel.unpack = .notANumber
    · exact .inr ⟨hx, (nan _).mp (eq.symm.trans ((nan _).mpr hx))⟩
    · exact .inl ⟨hx, eq⟩

theorem equivalence_same : Equivalence Same := by
  refine ⟨fun x => ?_, fun {x y} h => ?_, fun {x y z} h h' => ?_⟩
  · exact (same_iff_amount_eq x x).mpr rfl
  · exact (same_iff_amount_eq y x).mpr ((same_iff_amount_eq x y).mp h).symm
  · exact (same_iff_amount_eq x z).mpr
      (((same_iff_amount_eq x y).mp h).trans ((same_iff_amount_eq y z).mp h'))

end ValueMachine.Number
