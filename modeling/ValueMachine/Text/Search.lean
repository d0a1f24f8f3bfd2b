/-!
# Searching in texts

Texts are lists of characters. An occurrence of a pattern is a place at which the pattern is a prefix
of what follows; the empty pattern occurs everywhere.
-/

namespace ValueMachine.Text

/-- The first place at which the pattern occurs. -/
def find? {α : Type} [BEq α] (pattern : List α) : List α → Option Nat
  | [] => if pattern.isEmpty then some 0 else none
  | a :: text =>
    if pattern.isPrefixOf (a :: text) then some 0 else (find? pattern text).map (· + 1)

/-- Whether the pattern occurs anywhere. -/
def contains (pattern : List Char) : List Char → Bool
  | [] => pattern.isEmpty
  | c :: text => pattern.isPrefixOf (c :: text) || contains pattern text

/-- What stands before and after the first occurrence of the pattern. -/
def breakAt? (pattern : List Char) : List Char → Option (List Char × List Char)
  | [] => if pattern.isEmpty then some ([], []) else none
  | c :: text =>
    if pattern.isPrefixOf (c :: text) then some ([], (c :: text).drop pattern.length)
    else (breakAt? pattern text).map fun (before, after) => (c :: before, after)

/-- Puts `replacement` in place of the first occurrence. -/
def replaceFirst (pattern replacement text : List Char) : List Char :=
  match breakAt? pattern text with
  | some (before, after) => before ++ replacement ++ after
  | none => text

/-- The parts between occurrences, found from left to right; `fuel` bounds their number. -/
def splitWithin (delimiter : List Char) : (fuel : Nat) → List Char → List (List Char)
  | 0, text => [text]
  | fuel + 1, text =>
    match breakAt? delimiter text with
    | some (before, after) => before :: splitWithin delimiter fuel after
    | none => [text]

/-- The parts of a text between the occurrences of a delimiter, or its characters if the delimiter
is empty. -/
def split (delimiter text : List Char) : List (List Char) :=
  if delimiter.isEmpty then text.map fun c => [c] else splitWithin delimiter text.length text

/-- The parts with the separator between them. -/
def join (separator : List Char) : List (List Char) → List Char
  | [] => []
  | [part] => part
  | part :: parts => part ++ separator ++ join separator parts

end ValueMachine.Text
