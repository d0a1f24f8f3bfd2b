import ValueMachine.Value.Coercion

/-!
# Operators

Operators accept every pair of values: what is no number is seen as one. The status stays as it is.
-/

namespace ValueMachine

namespace Heap

/-- Two texts compare by code points, every other pair as numbers. -/
def less (h : Heap) (a b : Value) : Bool :=
  match h.payload a, h.payload b with
  | .text _ x, .text _ y => x < y
  | _, _ => h.toNumber a < h.toNumber b

/-- Like `less`, or equal. A NaN is neither. -/
def lessOrEqual (h : Heap) (a b : Value) : Bool :=
  match h.payload a, h.payload b with
  | .text _ x, .text _ y => x ≤ y
  | _, _ => h.toNumber a ≤ h.toNumber b

/-- The language's equality. Null equals null alone. Values of different kinds compare as numbers,
numbers, booleans and texts by content, and all else by identity. -/
def equal (h : Heap) (a b : Value) : Bool :=
  let p := h.payload a
  let q := h.payload b
  if p.isNull || q.isNull then p.isNull && q.isNull
  else if h.kind a ≠ h.kind b then h.toNumber a == h.toNumber b
  else match p, q with
    | .number x, .number y => x == y
    | .bool x, .bool y => x == y
    | .undefined, .undefined => true
    | .text _ x, .text _ y => x == y
    | _, _ => a == b

end Heap

namespace Value

/-- Applies an operation to the numbers of two values. -/
def arithmetic (f : Float → Float → Float) (a b : Value) : HeapM Value := do
  let h ← get
  ofNumber (f (h.toNumber a) (h.toNumber b))

/-- Joins the texts of two values if either is a text, and adds their numbers otherwise. -/
def add (a b : Value) : HeapM Value := do
  let h ← get
  if (h.payload a).text?.isSome || (h.payload b).text?.isSome then
    ofText (h.display a ++ h.display b)
  else arithmetic (· + ·) a b

def sub : Value → Value → HeapM Value := arithmetic (· - ·)

def mul : Value → Value → HeapM Value := arithmetic (· * ·)

/-- A quotient; dividing by a zero of either sign gives an infinity with the dividend's sign, and
NaN for zero and NaN. -/
def quotient (dividend divisor : Float) : Float :=
  if !(divisor == 0.0) then dividend / divisor
  else if dividend == 0.0 || dividend.isNaN then Number.nan
  else Number.infinity (!(dividend > 0.0))

def div : Value → Value → HeapM Value := arithmetic quotient

/-- The remainder has the sign of the dividend. -/
def modulo : Value → Value → HeapM Value := arithmetic Number.remainder

def neg (v : Value) : HeapM Value := do ofNumber (-((← get).toNumber v))

/-- A comparison as a boolean value. -/
def comparison (test : Heap → Bool) : HeapM Value := return .bool (test (← get))

def lt (a b : Value) : HeapM Value := comparison (·.less a b)

def le (a b : Value) : HeapM Value := comparison (·.lessOrEqual a b)

def gt (a b : Value) : HeapM Value := comparison (·.less b a)

def ge (a b : Value) : HeapM Value := comparison (·.lessOrEqual b a)

def equals (a b : Value) : HeapM Value := comparison (·.equal a b)

def notEquals (a b : Value) : HeapM Value := comparison fun h => !h.equal a b

end Value

end ValueMachine
