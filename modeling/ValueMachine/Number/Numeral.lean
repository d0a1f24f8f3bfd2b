import ValueMachine.Number.Decimal
import ValueMachine.Text.Offsets

/-!
# Reading numbers

The numerals are an optional sign before `infinity`, `inf` or `nan` in any letter case, or before
digits with an optional point, at least one digit on either side of it, and an optional exponent:
`e` or `E`, an optional sign and at least one digit. `Numeral.scan` takes the longest numeral off
the front of a text. Numerals read as the nearest double.

The strict reader `readWhole?` takes a text that is a numeral. The forgiving one, `readLeading`,
measures the numeral at the front among the bytes of the text, cuts it out and hands it to a strict
one, whichever that is. `readBounded?` is a strict reader for which large exponents are all the same.
-/

namespace ValueMachine.Number

/-- What a numeral stands for; a decimal is `± digits · 10 ^ exponent`, where `digits` is a text of
digits. -/
inductive Numeral where
  | nan
  | infinite (negative : Bool)
  | decimal (negative : Bool) (digits : List Char) (exponent : Int)
  deriving DecidableEq

/-- Decimal exponents beyond this many places are decided without computing the power of ten. -/
def exponentReach : Nat := 400

/-- The double nearest to `± digits · 10 ^ exponent`. -/
def ofDecimal (negative : Bool) (digits : List Char) (exponent : Int) : Float :=
  let significant := digits.dropWhile (· == '0')
  let magnitude := (significant.length : Int) + exponent
  if significant.isEmpty ∨ magnitude < -exponentReach then zero negative
  else if (exponentReach : Int) < magnitude then infinity negative
  else
    nearest negative (digitsValue significant * tenPow exponent.toNat) (tenPow (-exponent).toNat)

namespace Numeral

def value : Numeral → Float
  | .nan => Number.nan
  | .infinite negative => infinity negative
  | .decimal negative digits exponent => ofDecimal negative digits exponent

/-- Takes an optional sign off the front; the flag says whether it was a minus. -/
def scanSign : List Char → Bool × List Char
  | '+' :: rest => (false, rest)
  | '-' :: rest => (true, rest)
  | text => (false, text)

/-- Takes a word off the front, whatever the case of its letters. -/
def scanWord? (word : String) (text : List Char) : Option (List Char) :=
  if (text.take word.length).map Char.toLower = word.toList then some (text.drop word.length)
  else none

/-- Takes the digits off the front. -/
def scanDigits (text : List Char) : List Char × List Char :=
  (text.takeWhile Char.isDigit, text.dropWhile Char.isDigit)

/-- Takes a point and the digits after it off the front, if there is a point. -/
def scanFraction : List Char → List Char × List Char
  | '.' :: rest => scanDigits rest
  | text => ([], text)

/-- Takes an exponent off the front; a mark without digits is no exponent. -/
def scanExponent : List Char → Int × List Char
  | [] => (0, [])
  | mark :: rest =>
    if mark = 'e' ∨ mark = 'E' then
      let (negative, afterSign) := scanSign rest
      let (written, afterDigits) := scanDigits afterSign
      if written.isEmpty then (0, mark :: rest)
      else
        let size : Int := digitsValue written
        (if negative then -size else size, afterDigits)
    else (0, mark :: rest)

/-- Takes a decimal without its sign off the front: digits, decimal exponent, rest. -/
def scanDecimal? (text : List Char) : Option (List Char × Int × List Char) :=
  let (whole, afterWhole) := scanDigits text
  let (fraction, afterFraction) := scanFraction afterWhole
  if whole.isEmpty && fraction.isEmpty then none
  else
    let (exponent, rest) := scanExponent afterFraction
    some (whole ++ fraction, exponent - fraction.length, rest)

/-- The longest numeral at the front of the text, with what follows it. -/
def scan (text : List Char) : Option (Numeral × List Char) :=
  let (negative, unsigned) := scanSign text
  match scanWord? "infinity" unsigned with
  | some rest => some (.infinite negative, rest)
  | none =>
    match scanWord? "inf" unsigned with
    | some rest => some (.infinite negative, rest)
    | none =>
      match scanWord? "nan" unsigned with
      | some rest => some (.nan, rest)
      | none =>
        (scanDecimal? unsigned).map fun (digits, exponent, rest) =>
          (.decimal negative digits exponent, rest)

end Numeral

/-- The value of a text that is one numeral and nothing more. -/
def readWhole? (text : List Char) : Option Float :=
  match Numeral.scan text with
  | some (numeral, []) => some numeral.value
  | _ => none

/-! ### Large exponents -/

/-- An exponent that has come to this takes no further digits. -/
def exponentBound : Nat := twoPow 16

/-- The text without the digits that an exponent does not take; `size` is what it has come to. -/
def boundExponent : (size : Nat) → List Char → List Char
  | _, [] => []
  | size, c :: rest =>
    if !c.isDigit then c :: boundExponent size rest
    else if size < exponentBound then c :: boundExponent (withDigit size c) rest
    else boundExponent size rest

def isExponentMark (c : Char) : Bool := c == 'e' || c == 'E'

/-- The value of a text that is one numeral, with its exponent bounded. -/
def readBounded? (text : List Char) : Option Float :=
  readWhole? (text.takeWhile (!isExponentMark ·) ++
    boundExponent 0 (text.dropWhile (!isExponentMark ·)))

/-! ## The numeral at the front -/

namespace Numeral

/-- The words that are numerals, in lower case. A word comes before its prefixes. -/
def words : List String := ["infinity", "inf", "nan"]

/-- The word at the front, whatever the case of its letters. -/
def word? (text : List Char) : Option String :=
  words.find? fun word => word.toList.isPrefixOf (text.map Char.toLower)

/-- Whether the first byte is that of a character. -/
def startsWith (c : Char) (bytes : List UInt8) : Bool := bytes.head? == some c.toUInt8

def isDigitByte (byte : UInt8) : Bool := '0'.toUInt8 ≤ byte && byte ≤ '9'.toUInt8

/-- The length of the sign at the front, if there is one. -/
def signLength (bytes : List UInt8) : Nat :=
  if startsWith '+' bytes || startsWith '-' bytes then 1 else 0

/-- The length of the digits at the front. -/
def digitsLength (bytes : List UInt8) : Nat := (bytes.takeWhile isDigitByte).length

/-- The length of the point at the front with the digits after it, if there is a point. -/
def pointLength (bytes : List UInt8) : Nat :=
  if startsWith '.' bytes then 1 + digitsLength (bytes.drop 1) else 0

/-- The length of the exponent at the front; a mark without digits is no exponent. -/
def exponentLength (bytes : List UInt8) : Nat :=
  if startsWith 'e' bytes || startsWith 'E' bytes then
    let signed := 1 + signLength (bytes.drop 1)
    let digits := digitsLength (bytes.drop signed)
    if digits = 0 then 0 else signed + digits
  else 0

/-- The numeral at the front, empty if there is none. It is none if a cut that is made on the way is
inside a character. -/
def leading? (text : List Char) : Option (List Char) := do
  let bytes := Text.bytesOf text
  let start := signLength bytes
  let (_, unsigned) ← Text.splitAt? start text
  match word? unsigned with
  | some word => Text.between? 0 (start + word.length) text
  | none =>
    let afterWhole := start + digitsLength (bytes.drop start)
    let stop := afterWhole + pointLength (bytes.drop afterWhole)
    if stop = start then return []
    else if (← Text.between? start stop text) = ['.'] then return []
    else Text.between? 0 (stop + exponentLength (bytes.drop stop)) text

end Numeral

/-- The value of a text that is one numeral, as a strict reader tells it, which is not asked for the
empty text. -/
def readStrict? (numeral? : List Char → Option Float) (text : List Char) : Option Float :=
  if text.isEmpty then none else numeral? text

/-- The value of the numeral at the front, as the strict reader tells it; zero if there is none, and if
the strict reader does not take it. -/
def readLeading (numeral? : List Char → Option Float) (text : List Char) : Float :=
  match Numeral.leading? text with
  | none | some [] => zero false
  | some numeral => (numeral? numeral).getD (zero false)

end ValueMachine.Number
