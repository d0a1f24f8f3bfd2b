import ValueMachine.Machine
import ValueMachine.Number.Format
import ValueMachine.Number.Numeral
import ValueMachine.Text.Blank

/-!
# Coercion

Every value can be seen as a number, as a truth value and as a text. These views read through boxes
and never fail. The explicit conversions report what they cannot convert.
-/

namespace ValueMachine

namespace Heap

/-- The number that operators see: texts read their leading numeral, booleans are zero and one, and
everything else is zero. -/
def toNumber (h : Heap) (v : Value) : Float :=
  match h.contentPayload v with
  | .number x => x
  | .bool b => if b then 1.0 else 0.0
  | .text _ content => Number.readLeading h.outside.numeral? (Text.trimStart content.toList)
  | _ => 0.0

/-- False for zero, NaN, `false`, null, undefined and the empty text. -/
def isTruthy (h : Heap) (v : Value) : Bool :=
  match h.contentPayload v with
  | .number x => !(x == 0.0) && !x.isNaN
  | .bool b => b
  | .null => false
  | .undefined => false
  | .text _ content => !content.isEmpty
  | _ => true

/-- The text that concatenation and `join` see. -/
def display (h : Heap) (v : Value) : String :=
  match h.contentPayload v with
  | .number x => .ofList (Number.plain x)
  | .bool b => if b then "true" else "false"
  | .null => "null"
  | .undefined => "undef"
  | .text _ content => content
  | .array _ => "[...]"
  | .object _ => "\x7b...\x7d"
  | .extension _ => "\x7b...\x7d"
  | .function _ => "[Function]"
  | .box _ => "undef"

/-- The type name of the declared kind, so that a null in a number variable is a number. -/
def typeOf (h : Heap) (v : Value) : String :=
  match h.declaredKind v, h.subKind v with
  | .object, .plain => Kind.object.typeName
  | .object, sub => Kind.object.typeName ++ ":" ++ sub.typeName
  | declared, _ => declared.typeName

end Heap

namespace Value

def typeOf (v : Value) : HeapM Value := do ofStaticText ((← get).typeOf v)

/-- The number itself, or the number that a text, a boolean or undefined stands for. -/
def toNum (v : Value) : Attempt Value := do
  match ← payloadOf v with
  | .number _ => return v
  | .undefined => ofNumber 0.0
  | .bool b => ofNumber (if b then 1.0 else 0.0)
  | .null => nullOf .number
  | .text _ content =>
    if content.isEmpty then
      failNull (.argument "toNum" "Empty string cannot be converted to number") .number
    else match Number.readStrict? (← get).outside.numeral? (Text.trimStart content.toList) with
      | some x => ofNumber x
      | none => failNull (.argument "toNum" "Invalid number format") .number
  | _ => failNull (.argument "toNum" "Cannot convert array/object to number") .number

/-- The greatest integer that is not above the converted number; a null stays null. Rounding leaves the
status as the conversion left it. -/
def toInt (v : Value) : Run Value := do
  let number ← settle (toNum v)
  match (← payloadOf number).number? with
  | some x => ofNumber (Number.floor x)
  | none => return number

/-- The value's text form. -/
def ofDisplay (v : Value) : Attempt Value := do ofText ((← get).display v)

/-- The value's text form; a text is answered as it is. -/
def toStr (v : Value) : Run Value := do
  if (← payloadOf v).text?.isSome then settle (return v)
  else settle (ofDisplay v)

def toBl (v : Value) : Attempt Value := return .bool ((← get).isTruthy v)

/-- Tests the kind of a value. -/
def kindIs (test : Kind → Bool) (v : Value) : Attempt Value := return .bool (test ((← get).kind v))

end Value

end ValueMachine
