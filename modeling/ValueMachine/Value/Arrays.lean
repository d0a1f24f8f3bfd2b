import ValueMachine.Value.Arithmetic

/-!
# Arrays

All operations here answer a new array that shares its elements with the arguments, and leave the
arguments as they are.
-/

namespace ValueMachine

namespace Heap

/-- The position of the first element that equals the needle in the language's sense. -/
def positionOf? (h : Heap) (array needle : Value) : Option Nat :=
  match h.payload array with
  | .array items => items.toList.findIdx? (h.equal · needle)
  | _ => none

end Heap

namespace Value

/-- The number of characters, elements, entries or bytes. -/
def len (v : Value) : Attempt Value := do
  match ← payloadOf v with
  | .text _ content => ofNat content.length
  | .array items => ofNat items.size
  | .object fields => ofNat fields.size
  | .extension e => ofNat (e.bytes?.elim 0 Array.size)
  | _ => failNull (.argument "len" "argument must be a string, array, or object") .number

def push (array item : Value) : Attempt Value := do
  ofArray ((← arrayArg array "push" .object).push item)

def unshift (array item : Value) : Attempt Value := do
  ofArray (#[item] ++ (← arrayArg array "unshift" .object))

/-- All elements but the last. -/
def pop (array : Value) : Attempt Value := do
  let items ← arrayArg array "pop" .object
  if items.isEmpty then failNull (.emptyArray "pop") .object else ofArray items.pop

/-- All elements but the first. -/
def shift (array : Value) : Attempt Value := do
  let items ← arrayArg array "shift" .object
  if items.isEmpty then failNull (.emptyArray "shift") .object
  else ofArray (items.extract 1 items.size)

/-- The integer part of a bound, between zero and the length. -/
def clampIndex (bound : Float) (length : Nat) : Nat := min (Number.toCount bound) length

/-- The elements from `start` up to `stop`, both clamped to the array. What is no number reads as
the start or the end of the array. -/
def slice (array start stop : Value) : Attempt Value := do
  let items ← arrayArg array "slice" .object
  let first := (← payloadOf start).number?.elim 0 (clampIndex · items.size)
  let last := (← payloadOf stop).number?.elim items.size (clampIndex · items.size)
  ofArray (items.extract first last)

def concat (left right : Value) : Attempt Value := do
  match (← payloadOf left).array?, (← payloadOf right).array? with
  | some first, some second => ofArray (first ++ second)
  | _, _ => failNull (.argument "concat" "requires two arrays") .object

/-- The elements of both sides; a side that is no array has none. -/
def spreadArray (target source : Value) : Attempt Value := do
  ofArray ((← payloadOf target).array?.getD #[] ++ (← payloadOf source).array?.getD #[])

def reverse (array : Value) : Attempt Value := do
  ofArray (← arrayArg array "reverse" .object).reverse

/-- The position of an element, or minus one. -/
def elementIndexOf (array needle : Value) : Attempt Value := do
  let _ ← arrayArg array "indexOf" .number
  match (← get).positionOf? array needle with
  | some position => ofNat position
  | none => ofNumber (-1.0)

def includes (array needle : Value) : Attempt Value := do
  let _ ← arrayArg array "includes" .bool
  return .bool ((← get).positionOf? array needle).isSome

/-! ## Ranges -/

/-- How many numbers lie from `start` towards `stop` in steps of `step`, the end left out: the
rounded-up quotient of the way by the step, if both point the same way. -/
def rangeCount (start stop step : Float) : Nat :=
  let span := stop - start
  let sameWay := (span > 0.0 && step > 0.0) || (span < 0.0 && step < 0.0)
  if sameWay then Number.toCount (Number.ceil (span / step)) else 0

/-- The number at a place of a range. -/
def rangeElement (start step : Float) (place : Nat) : Float := start + Number.ofNat place * step

/-- The three numbers of a range; the step is one if it is not given. -/
def rangeArgs (start stop step : Value) : Attempt (Float × Float × Float) := do
  let first ← numberArg start "range" "start" .object
  let last ← numberArg stop "range" "end" .object
  let p ← payloadOf step
  let width ← if p.isNull || p.isUndefined then pure 1.0 else numberArg step "range" "step" .object
  if width == 0.0 then fail .zeroStep .null else return (first, last, width)

/-- The numbers of a range with the given count. -/
def rangeOf (start step : Float) (count : Nat) : HeapM Value := do
  ofList (← (List.range count).mapM fun place => ofNumber (rangeElement start step place))

end Value

end ValueMachine
