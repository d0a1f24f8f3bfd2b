import ValueMachine.Printing.Layout
import ValueMachine.Value.Coercion

/-!
# Templates

A template is text with directives: `%`, an optional `-`, an optional width, an optional precision
after a point, and a letter. Each directive takes the next argument. A percent sign is written `%%`.
A directive with an unknown letter, or that no argument is left for, stands for its own text. A
directive that asks for more digits or blanks than a text can have makes the whole text impossible.
-/

namespace ValueMachine

namespace Printing

inductive Conversion where
  /-- The integer part. -/
  | integer
  /-- A fixed number of places, the further ones dropped. -/
  | fixed
  /-- A number of significant digits. -/
  | general
  | text
  | truth
  /-- The value as it is printed. -/
  | value
  deriving DecidableEq

def Conversion.ofLetter? : Char → Option Conversion
  | 'd' => some .integer
  | 'i' => some .integer
  | 'f' => some .fixed
  | 'g' => some .general
  | 's' => some .text
  | 'b' => some .truth
  | 'v' => some .value
  | _ => none

structure Directive where
  leftAligned : Bool
  width : Nat
  precision : Option Nat
  conversion : Conversion
  /-- The directive as it is written. -/
  written : List Char

inductive Segment where
  | literal (content : List Char)
  | directive (d : Directive)

/-! ## Reading templates -/

/-- Widths and precisions are counted modulo `2 ^ 64`. -/
def readCount (digits : List Char) : Nat := Number.digitsValue digits % Number.twoPow 64

/-- Reads what follows a percent sign. A template that ends inside a directive has it as text. -/
def readDirective (text : List Char) : Segment × List Char :=
  let leftAligned := text.head? = some '-'
  let flag := if leftAligned then ['-'] else []
  let rest := text.drop flag.length
  let width := rest.takeWhile Char.isDigit
  let rest := rest.drop width.length
  let pointed := rest.head? = some '.'
  let precision := if pointed then (rest.drop 1).takeWhile Char.isDigit else []
  let point := if pointed then '.' :: precision else []
  match rest.drop point.length with
  | [] => (.literal ('%' :: text), [])
  | letter :: rest =>
    let written := '%' :: flag ++ width ++ point ++ [letter]
    if letter = '%' then (.literal ['%'], rest)
    else match Conversion.ofLetter? letter with
      | none => (.literal written, rest)
      | some conversion =>
        let precision := if pointed then some (readCount precision) else none
        (.directive ⟨leftAligned, readCount width, precision, conversion, written⟩, rest)

/-- The segments of a template; `fuel` bounds their number. -/
def segmentsWithin : (fuel : Nat) → List Char → List Segment
  | 0, _ => []
  | _, [] => []
  | fuel + 1, c :: text =>
    if c = '%' then
      let (segment, rest) := readDirective text
      segment :: segmentsWithin fuel rest
    else .literal [c] :: segmentsWithin fuel text

def segments (template : List Char) : List Segment := segmentsWithin template.length template

/-! ## Filling templates -/

/-- The least number of blanks that no text can be filled up with. -/
def fillLimit : Nat := Number.twoPow 63

/-- Fills up with blanks to the width, unless that takes too many. -/
def Directive.pad? (d : Directive) (body : List Char) : Option (List Char) :=
  let missing := d.width - body.length
  if missing < fillLimit then
    let fill := List.replicate missing ' '
    some (if d.leftAligned then body ++ fill else fill ++ body)
  else none

/-- Places and digits of a number if no precision is given. -/
def defaultPrecision : Nat := 6

end Printing

namespace Heap

open Printing

/-- What a directive writes for an argument, before it is filled up. -/
def convert? (h : Heap) (maxDepth : Nat) (d : Directive) (v : Value) : Option (List Char) :=
  let precision := d.precision.getD defaultPrecision
  match d.conversion with
  | .integer => some (integerText (Number.toInt64 (h.toNumber v)))
  | .fixed => Number.cut? (h.toNumber v) precision
  | .general => Number.general? (h.toNumber v) precision
  | .truth => some (if h.isTruthy v then "true" else "false").toList
  | .value => some (h.render maxDepth false v)
  | .text =>
    let content := (h.display v).toList
    some (d.precision.elim content content.take)

/-- The texts of segments, which take their arguments from left to right. -/
def fill? (h : Heap) (maxDepth : Nat) : List Segment → List Value → Option (List (List Char))
  | [], _ => some []
  | .literal content :: segments, vs => return content :: (← h.fill? maxDepth segments vs)
  | .directive d :: segments, [] => return d.written :: (← h.fill? maxDepth segments [])
  | .directive d :: segments, v :: vs => do
    let body ← h.convert? maxDepth d v
    return (← d.pad? body) :: (← h.fill? maxDepth segments vs)

/-- The text of a template with the given arguments, unless it is too long to be made. -/
def format? (h : Heap) (maxDepth : Nat) (template : List Char) (vs : List Value) :
    Option (List Char) :=
  (h.fill? maxDepth (segments template) vs).map List.flatten

end Heap

end ValueMachine
