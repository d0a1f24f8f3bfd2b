import ValueMachine.Machine
import ValueMachine.Text.Blank
import ValueMachine.Text.Case
import ValueMachine.Text.Offsets
import ValueMachine.Value.Arrays

/-!
# Texts

Positions and lengths count characters. Texts are never changed: each operation answers a new value.
-/

namespace ValueMachine.Value

/-- The characters behind a handle, or a failure with a given fallback. -/
def charsArg (v : Value) (operation requirement : String) (fallback : HeapM Value) :
    Attempt (List Char) := do
  return (← require Payload.text? v operation requirement fallback).toList

/-- The place that a number stands for; negative numbers and NaN stand for none. -/
def place? (index : Float) : Option Nat := if 0.0 ≤ index then some (Number.toCount index) else none

/-! ## Parts -/

/-- The character of a text, or the element of an array, at a position. -/
def charAt (target index : Value) : Attempt Value := do
  match (← payloadOf target).array? with
  | some items =>
    let i ← require Payload.number? index "charAt" "requires numeric index" (return .null)
    match (place? i).bind (items[·]?) with
    | some item => return item
    | none => fail .elementBounds .null
  | none =>
    let text ← charsArg target "charAt" "requires string or array" (nullOf .string)
    let i ← require Payload.number? index "charAt" "requires numeric index" (nullOf .string)
    match (place? i).bind (text[·]?) with
    | some c => ofChars [c]
    | none => failNull .characterBounds .string

/-- The part of a text from `start` on, cut to `length` characters if a length is given. A start
outside the text gives the empty text, and so does a negative length. -/
def substr (target start length : Value) : Attempt Value := do
  let text ← charsArg target "substr" "requires string" (ofText "")
  let first := Number.toInt64 (← require Payload.number? start "substr" "requires numeric start"
    (ofText ""))
  let rest := (text.length : Int) - first
  let count := (← payloadOf length).number?.elim rest Number.toInt64
  if first < 0 || rest ≤ 0 then ofText ""
  else ofChars ((Text.part? first.toNat count text).getD [])

/-! ## Searching -/

/-- The position of a part in a text, or minus one. -/
def partIndexOf (target part : Value) : Attempt Value := do
  match (← payloadOf target).text?, (← payloadOf part).text? with
  | some text, some part =>
    match Text.position? part.toList text.toList with
    | some position => ofNat position
    | none => ofNumber (-1.0)
  | _, _ =>
    fail (.argument "indexOf" "requires two strings or array and value") (← ofNumber (-1.0))

/-- The position of a part in a text or of an element in an array, or minus one. -/
def indexOf (target needle : Value) : Run Value := do
  if (← payloadOf target).array?.isSome then settle (elementIndexOf target needle)
  else settle (partIndexOf target needle)

/-- Tests two texts against each other. -/
def compareTexts (operation : String) (test : List Char → List Char → Bool) (target other : Value) :
    Attempt Value := do
  let text ← charsArg target operation "first argument must be a string" (return .bool false)
  let part ← charsArg other operation "second argument must be a string" (return .bool false)
  return .bool (test part text)

def startsWith : Value → Value → Attempt Value := compareTexts "startsWith" List.isPrefixOf

def endsWith : Value → Value → Attempt Value := compareTexts "endsWith" List.isSuffixOf

def contains : Value → Value → Attempt Value := compareTexts "contains" Text.contains

/-! ## Rewriting -/

/-- Replaces the first occurrence of a part; the empty part is not looked for. -/
def replace (target part replacement : Value) : Attempt Value := do
  match (← payloadOf target).text?, (← payloadOf part).text?, (← payloadOf replacement).text? with
  | some text, some old, some new =>
    if old.isEmpty then ofText text
    else ofChars (Text.replaceFirst old.toList new.toList text.toList)
  | _, _, _ => fail (.argument "replace" "requires three strings") (← ofText "")

/-- Changes a text as a whole. -/
def mapText (operation : String) (change : List Char → List Char) (target : Value) :
    Attempt Value := do
  ofChars (change (← charsArg target operation "requires string" (ofText "")))

def trim : Value → Attempt Value := mapText "trim" Text.trim

def upper : Value → Attempt Value := mapText "upper" Text.upper

def lower : Value → Attempt Value := mapText "lower" Text.lower

/-! ## Splitting and joining -/

/-- The parts of a text between the occurrences of a delimiter, a blank if none is given. -/
def split (target delimiter : Value) : Attempt Value := do
  let text ← charsArg target "split" "requires string" (nullOf .object)
  let delimiter := (← payloadOf delimiter).text?.getD " "
  ofList (← (Text.split delimiter.toList text).mapM fun part => ofChars part)

/-- The displayed elements of an array with a separator between them, which is a comma if none is
given. -/
def join (array separator : Value) : Attempt Value := do
  let items ← require Payload.array? array "join" "requires array" (ofText "")
  let separator := (← payloadOf separator).text?.getD ","
  let h ← get
  ofChars (Text.join separator.toList (items.toList.map fun item => (h.display item).toList))

end ValueMachine.Value
