import ValueMachine.Heap

/-!
# Structural equality

Two values are structurally equal if they have the same kinds all the way down: numbers by value
with NaN equal to itself, texts by content, arrays element by element, objects by the same keys in
any order, functions by identity. Below a fixed depth only identical values are equal, so cyclic
values can be compared.
-/

namespace ValueMachine.Heap

/-- How many levels are looked into. -/
def equalityDepth : Nat := 257

def equalWithin (h : Heap) : (depth : Nat) → Value → Value → Bool
  | 0, a, b => a == b
  | depth + 1, a, b =>
    a == b ||
    match h.payload a, h.payload b with
    | .number x, .number y => x == y || (x.isNaN && y.isNaN)
    | .bool x, .bool y => x == y
    | .null, .null => true
    | .undefined, .undefined => true
    | .text _ x, .text _ y => x == y
    | .array xs, .array ys =>
      xs.size == ys.size &&
        (xs.toList.zip ys.toList).all fun (x, y) => equalWithin h depth x y
    | .object xs, .object ys =>
      xs.size == ys.size &&
        xs.toList.all fun (key, x) =>
          match ys.get? key with
          | some y => equalWithin h depth x y
          | none => false
    | .extension x, .extension y => x == y
    | .box x, .box y => equalWithin h depth x y
    | _, _ => false

def structuralEq (h : Heap) (a b : Value) : Bool := h.equalWithin equalityDepth a b

end ValueMachine.Heap
