import ValueMachine.Number.Rounding
import ValueMachine.Operation

/-!
# Numbers

Functions of numbers. Unlike the operators they do not convert: an argument that is no number is
reported.
-/

namespace ValueMachine.Value

/-! ## Functions of one number -/

def mapNumber (operation : String) (f : Float → Float) (v : Value) : Attempt Value := do
  ofNumber (f (← numberArg v operation "argument" .number))

def abs : Value → Attempt Value := mapNumber "abs" Float.abs

def floor : Value → Attempt Value := mapNumber "floor" Number.floor

def ceil : Value → Attempt Value := mapNumber "ceil" Number.ceil

/-- The nearest integer; a half goes away from zero. -/
def round : Value → Attempt Value := mapNumber "round" Number.round

/-- The square root; negative numbers have none. -/
def sqrt (v : Value) : Attempt Value := do
  let x ← numberArg v "sqrt" "argument" .number
  if x < 0.0 then failNull .negativeRoot .number else ofNumber x.sqrt

/-- Whether the value is NaN; false for all that is no number. -/
def isNaN (v : Value) : Attempt Value :=
  return .bool ((← payloadOf v).number?.elim false Float.isNaN)

def isFinite (v : Value) : Attempt Value :=
  return .bool ((← payloadOf v).number?.elim false Float.isFinite)

/-! ## Functions of several numbers -/

def mapNumbers (operation : String) (f : Float → Float → Float) (a b : Value) : Attempt Value := do
  let x ← numberArg a operation "first argument" .number
  let y ← numberArg b operation "second argument" .number
  ofNumber (f x y)

/-- The lesser of two numbers, the second one if they do not compare. -/
def min : Value → Value → Attempt Value := mapNumbers "min" fun x y => if x < y then x else y

/-- The greater of two numbers, the second one if they do not compare. -/
def max : Value → Value → Attempt Value := mapNumbers "max" fun x y => if x > y then x else y

/-- The number rounded to a number of decimal places, as far as the scaled number can tell. -/
def roundPlaces (x places : Float) : Float :=
  let scale := Number.powInt 10.0 (Number.toInt32 places)
  Number.round (x * scale) / scale

def roundTo : Value → Value → Attempt Value := mapNumbers "round" roundPlaces

def pow (base exponent : Value) : Attempt Value := do
  let x ← numberArg base "pow" "base" .number
  let y ← numberArg exponent "pow" "exponent" .number
  ofNumber (x.pow y)

/-- The nearest number between two bounds; NaN stays NaN. -/
def clamp (v low high : Value) : Attempt Value := do
  let x ← numberArg v "clamp" "first argument" .number
  let low ← numberArg low "clamp" "second argument" .number
  let high ← numberArg high "clamp" "third argument" .number
  if low > high then failNull (.argument "clamp" "min must be less than or equal to max") .number
  else ofNumber (if x < low then low else if x > high then high else x)

end ValueMachine.Value
