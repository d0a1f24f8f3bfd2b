import ValueMachine.Config
import ValueMachine.Json.Reader

/-!
# Reading configurations

A configuration is written as a JSON object of its fields, or as an array of them in order. What is
left out has its standard value. Fields of other names are skipped, whatever their value is; a field
that is written twice is refused.
-/

namespace ValueMachine.Config

open Json (skipBlanks readWord? readQuoted? readName? readList? readNumberText? readValue?)

/-- The fields by the names that they are written with. -/
inductive Field where
  | color
  | printMaxDepth
  | jsonMaxDepth
  | hashThreshold
  | maxCallArgs
  deriving DecidableEq

namespace Field

def all : List Field := [color, printMaxDepth, jsonMaxDepth, hashThreshold, maxCallArgs]

def name : Field → String
  | color => "color"
  | printMaxDepth => "print_max_depth"
  | jsonMaxDepth => "json_max_depth"
  | hashThreshold => "object_hash_threshold"
  | maxCallArgs => "max_call_args"

def ofName? (name : String) : Option Field := all.find? (·.name == name)

end Field

/-- A change of one field. -/
abbrev Change := Config → Config

def colorName : ColorMode → String
  | .auto => "auto"
  | .always => "always"
  | .never => "never"

def colorOfName? (name : String) : Option ColorMode :=
  [ColorMode.auto, .always, .never].find? (colorName · == name)

/-! ## Fields -/

/-- A colour mode is its name, or an object with its name and null. -/
def readColor? (text : List Char) : Option (ColorMode × List Char) :=
  match text with
  | '"' :: _ => do
    let (name, rest) ← readQuoted? .strict text
    return (← colorOfName? (.ofList name), rest)
  | '\x7b' :: rest => do
    let (name, rest) ← readName? .strict (skipBlanks rest)
    let rest ← readWord? "null" rest
    let rest ← readWord? "\x7d" (skipBlanks rest)
    return (← colorOfName? name, rest)
  | _ => none

/-- The greatest count that a field can hold. -/
def maxCount : Nat := Number.twoPow 64 - 1

def readCount? (text : List Char) : Option (Nat × List Char) := do
  let (number, rest) ← readNumberText? text
  let n ← number.natural?
  if n ≤ maxCount then return (n, rest) else none

/-- Reads the value of a field. -/
def readField? : Field → List Char → Option (Change × List Char)
  | .color, text => (readColor? text).map fun (color, rest) => (({ · with color }), rest)
  | .printMaxDepth, text =>
    (readCount? text).map fun (n, rest) => (({ · with printMaxDepth := n }), rest)
  | .jsonMaxDepth, text =>
    (readCount? text).map fun (n, rest) => (({ · with jsonMaxDepth := n }), rest)
  | .hashThreshold, text =>
    (readCount? text).map fun (n, rest) => (({ · with hashThreshold := n }), rest)
  | .maxCallArgs, text =>
    (readCount? text).map fun (n, rest) => (({ · with maxCallArgs := n }), rest)

/-! ## Objects and arrays -/

/-- A member of the object: a field with its change, or one to be skipped. -/
def readMember? (text : List Char) : Option (Option (Field × Change) × List Char) := do
  let (name, rest) ← readName? .strict text
  match Field.ofName? name with
  | some field =>
    let (change, rest) ← readField? field rest
    return (some (field, change), rest)
  | none =>
    let (_, rest) ← readValue? .lenient rest rest
    return (none, rest)

/-- Applies changes one after the other. -/
def applyAll (changes : List Change) (c : Config) : Config :=
  changes.foldl (fun c change => change c) c

/-- The object whose opening bracket has been read. -/
def readObject? (text : List Char) : Option (Config × List Char) := do
  let (members, rest) ← readList? readMember? '\x7d' text
  let fields := members.filterMap id
  if (fields.map (·.1)).Nodup then return (applyAll (fields.map (·.2)) standard, rest) else none

/-- Values for the given fields in order, up to the closing bracket; at least one. -/
def readPlaces? : List Field → Config → List Char → Option (Config × List Char)
  | [], _, _ => none
  | field :: fields, c, text => do
    let (change, rest) ← readField? field (skipBlanks text)
    match skipBlanks rest with
    | ']' :: rest => return (change c, rest)
    | ',' :: rest => readPlaces? fields (change c) rest
    | _ => none

/-- The array whose opening bracket has been read. -/
def readArray? (text : List Char) : Option (Config × List Char) :=
  match skipBlanks text with
  | ']' :: rest => some (standard, rest)
  | _ => readPlaces? Field.all standard text

/-- The configuration that the whole text stands for. -/
def read? (text : List Char) : Option Config := do
  let (c, rest) ←
    match skipBlanks text with
    | '\x7b' :: rest => readObject? rest
    | '[' :: rest => readArray? rest
    | _ => none
  if (skipBlanks rest).isEmpty then return c else none

end ValueMachine.Config
