import ValueMachine.Json.Document
import ValueMachine.Json.Quoted
import ValueMachine.Number.Numeral

/-!
# Reading JSON

The grammar of RFC 8259. Readers take what they recognise off the front of a text and answer the
rest. A number beyond the range of doubles and half a surrogate pair are well-formed, but have no
value: the strict reader refuses them, the lenient reader puts an infinity and the replacement
character.
-/

namespace ValueMachine.Json

def isBlank (c : Char) : Bool := c == ' ' || c == '\n' || c == '\t' || c == '\r'

def skipBlanks (text : List Char) : List Char := text.dropWhile isBlank

/-- Takes a word off the front. -/
def readWord? (word : String) (text : List Char) : Option (List Char) :=
  if word.toList.isPrefixOf text then some (text.drop word.length) else none

/-! ## Numbers -/

/-- The parts of a number as it is written; the exponent with its sign. -/
structure NumberText where
  negative : Bool
  whole : List Char
  fraction : Option (List Char)
  exponent : Option (Bool × List Char)
  deriving DecidableEq

namespace NumberText

def exponentValue (n : NumberText) : Int :=
  match n.exponent with
  | none => 0
  | some (negative, digits) =>
    if negative then -(Number.digitsValue digits : Int) else Number.digitsValue digits

/-- The double nearest to the number. -/
def value (n : NumberText) : Float :=
  let fraction := n.fraction.getD []
  Number.ofDecimal n.negative (n.whole ++ fraction) (n.exponentValue - fraction.length)

/-- The double nearest to the number, which the strict reader asks to be finite. -/
def value? (strictness : Strictness) (n : NumberText) : Option Float :=
  if strictness = .strict ∧ n.value.isInf then none else some n.value

/-- The number, if it is written as a plain integer without a sign. -/
def natural? (n : NumberText) : Option Nat :=
  if n.negative || n.fraction.isSome || n.exponent.isSome then none
  else some (Number.digitsValue n.whole)

end NumberText

/-- At least one digit. -/
def readDigits? (text : List Char) : Option (List Char × List Char) :=
  let digits := text.takeWhile Char.isDigit
  if digits.isEmpty then none else some (digits, text.dropWhile Char.isDigit)

/-- Digits without a needless zero in front. -/
def readWhole? (text : List Char) : Option (List Char × List Char) := do
  let (digits, rest) ← readDigits? text
  if digits.head? = some '0' ∧ 1 < digits.length then none else return (digits, rest)

def readFraction? : List Char → Option (Option (List Char) × List Char)
  | '.' :: rest => do
    let (digits, rest) ← readDigits? rest
    return (some digits, rest)
  | text => some (none, text)

def readSign (text : List Char) : Bool × List Char :=
  match text with
  | '-' :: rest => (true, rest)
  | '+' :: rest => (false, rest)
  | _ => (false, text)

def readExponent? : List Char → Option (Option (Bool × List Char) × List Char)
  | [] => some (none, [])
  | c :: rest =>
    if c = 'e' ∨ c = 'E' then do
      let (negative, rest) := readSign rest
      let (digits, rest) ← readDigits? rest
      return (some (negative, digits), rest)
    else some (none, c :: rest)

def readNumberText? (text : List Char) : Option (NumberText × List Char) := do
  let negative := text.head? = some '-'
  let (whole, rest) ← readWhole? (if negative then text.drop 1 else text)
  let (fraction, rest) ← readFraction? rest
  let (exponent, rest) ← readExponent? rest
  return (⟨negative, whole, fraction, exponent⟩, rest)

def readNumber? (strictness : Strictness) (text : List Char) : Option (Float × List Char) := do
  let (number, rest) ← readNumberText? text
  return (← number.value? strictness, rest)

/-! ## Lists -/

/-- Items up to the closing bracket, with commas between them; at least one. `fuel` is a text that
is at least as long. -/
def readMore? {α : Type} (item : List Char → Option (α × List Char)) (close : Char) :
    (fuel : List Char) → List Char → Option (List α × List Char)
  | [], _ => none
  | _ :: fuel, text => do
    let (x, rest) ← item (skipBlanks text)
    match skipBlanks rest with
    | [] => none
    | c :: rest =>
      if c = close then return ([x], rest)
      else if c = ',' then
        let (xs, rest) ← readMore? item close fuel rest
        return (x :: xs, rest)
      else none

/-- Items up to the closing bracket, none or more; the opening bracket has been read. -/
def readList? {α : Type} (item : List Char → Option (α × List Char)) (close : Char)
    (text : List Char) : Option (List α × List Char) :=
  match skipBlanks text with
  | [] => none
  | c :: rest => if c = close then some ([], rest) else readMore? item close text text

/-- A name and the colon after it. -/
def readName? (strictness : Strictness) (text : List Char) : Option (String × List Char) := do
  let (name, rest) ← readQuoted? strictness text
  let rest ← readWord? ":" (skipBlanks rest)
  return (.ofList name, skipBlanks rest)

/-- A name and the value after it. -/
def readMember? (strictness : Strictness) (value : List Char → Option (Document × List Char))
    (text : List Char) : Option ((String × Document) × List Char) := do
  let (name, rest) ← readName? strictness text
  let (document, rest) ← value rest
  return ((name, document), rest)

/-! ## Documents -/

/-- The value at the front. `fuel` is a text that is at least as long, so that there is more of it
than lists inside each other. -/
def readValue? (strictness : Strictness) : (fuel : List Char) → List Char →
    Option (Document × List Char)
  | _, [] => none
  | [], _ => none
  | _ :: fuel, c :: rest =>
    if c = '[' then do
      let (items, rest) ← readList? (readValue? strictness fuel) ']' rest
      return (.array items, rest)
    else if c = '\x7b' then do
      let (members, rest) ← readList? (readMember? strictness (readValue? strictness fuel)) '\x7d' rest
      return (.object members, rest)
    else if c = '"' then do
      let (content, rest) ← readQuoted? strictness (c :: rest)
      return (.text (.ofList content), rest)
    else if c = 'n' then do
      return (.null, ← readWord? "null" (c :: rest))
    else if c = 't' then do
      return (.bool true, ← readWord? "true" (c :: rest))
    else if c = 'f' then do
      return (.bool false, ← readWord? "false" (c :: rest))
    else do
      let (x, rest) ← readNumber? strictness (c :: rest)
      return (.number x, rest)

/-- The document that the whole text stands for, with blanks around it. -/
def Document.read? (text : List Char) : Option Document := do
  let (document, rest) ← readValue? .strict text (skipBlanks text)
  if (skipBlanks rest).isEmpty then return document else none

/-! ## Nesting -/

/-- Where a character stands as far as brackets are concerned. -/
inductive Surroundings where
  | outside
  | quoted
  | escaped

/-- The deepest nesting of brackets from a given depth on. Those in quoted texts do not count. -/
def nestingFrom : Surroundings → (depth : Nat) → List Char → Nat
  | _, depth, [] => depth
  | .escaped, depth, _ :: text => nestingFrom .quoted depth text
  | .quoted, depth, c :: text =>
    nestingFrom (if c = '\\' then .escaped else if c = '"' then .outside else .quoted) depth text
  | .outside, depth, c :: text =>
    if c = '"' then nestingFrom .quoted depth text
    else if c = '[' ∨ c = '\x7b' then nestingFrom .outside (depth + 1) text
    else if c = ']' ∨ c = '\x7d' then max depth (nestingFrom .outside (depth - 1) text)
    else nestingFrom .outside depth text

def nesting (text : List Char) : Nat := nestingFrom .outside 0 text

end ValueMachine.Json
