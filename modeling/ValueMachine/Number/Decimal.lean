import ValueMachine.Number.Exact

/-!
# Decimal digits

Digits of natural numbers, and the decimal nearest to a quotient with a fixed number of places or of
significant digits. Texts are lists of characters, most significant digit first.

Results:
* `digitsValue_eq`: the value of a text of digits is that of reading it digit by digit.
-/

namespace ValueMachine.Number

/-! ## Digits of a natural number -/

/-- The digit of weight one. -/
def lastDigit (n : Nat) : Char := Char.ofNat ('0'.toNat + n % 10)

/-- Digits of `n` before `tail`; `fuel` bounds their number. -/
def digitsBefore : (fuel n : Nat) → (tail : List Char) → List Char
  | 0, _, tail => tail
  | fuel + 1, n, tail =>
    if n = 0 then tail else digitsBefore fuel (n / 10) (lastDigit n :: tail)

/-- The significant digits of `n`: none for zero. -/
def significantDigits (n : Nat) : List Char := digitsBefore (n.log2 + 1) n []

/-- The decimal text of `n`. -/
def digits (n : Nat) : List Char := if n = 0 then ['0'] else significantDigits n

/-- How many decimal digits `n` has: none for zero. -/
def digitCount (n : Nat) : Nat := (significantDigits n).length

/-- The text filled up with zeros on the left to `width` characters. -/
def padZeros (width : Nat) (text : List Char) : List Char :=
  List.replicate (width - text.length) '0' ++ text

/-! ## Values of texts of digits -/

/-- The number after one more digit. -/
def withDigit (n : Nat) (c : Char) : Nat := 10 * n + (c.toNat - '0'.toNat)

/-- The value of a text of digits, one digit at a time. -/
def plainValue (text : List Char) : Nat := text.foldl withDigit 0

/-- The value of a text of `count` digits, from those of its two halves; at most `fuel` halvings. -/
def halvedValue : (fuel count : Nat) → List Char → Nat
  | 0, _, text => plainValue text
  | fuel + 1, count, text =>
    if count < 64 then plainValue text
    else
      let rear := count / 2
      halvedValue fuel (count - rear) (text.take (count - rear)) * tenPow rear
        + halvedValue fuel rear (text.drop (count - rear))

/-- The value of a text of digits. Halving the text keeps the products of long texts balanced. -/
def digitsValue (text : List Char) : Nat := halvedValue text.length.log2 text.length text

theorem foldl_withDigit (n : Nat) (text : List Char) :
    text.foldl withDigit n = n * tenPow text.length + plainValue text := by
  induction text generalizing n with
  | nil => simp [plainValue, tenPow]
  | cons c text ih =>
    have step : tenPow (c :: text).length = 10 * tenPow text.length := Nat.pow_succ'
    have first : plainValue (c :: text) = text.foldl withDigit (withDigit 0 c) := rfl
    rw [List.foldl_cons, first, ih, ih (withDigit 0 c), step, ← Nat.add_assoc, ← Nat.mul_assoc,
      ← Nat.add_mul]
    simp [withDigit, Nat.mul_comm n 10]

theorem plainValue_append (front rear : List Char) :
    plainValue (front ++ rear) = plainValue front * tenPow rear.length + plainValue rear := by
  rw [plainValue, List.foldl_append, foldl_withDigit]
  rfl

theorem halvedValue_eq (fuel : Nat) {count : Nat} {text : List Char} (h : text.length = count) :
    halvedValue fuel count text = plainValue text := by
  induction fuel generalizing count text with
  | zero => rfl
  | succ fuel ih =>
    rw [halvedValue]
    split
    · rfl
    · have front : (text.take (count - count / 2)).length = count - count / 2 := by
        rw [List.length_take]; omega
      have rear : (text.drop (count - count / 2)).length = count / 2 := by
        rw [List.length_drop]; omega
      simp only [ih front, ih rear]
      rw [← List.take_append_drop (count - count / 2) text, plainValue_append, rear,
        List.take_append_drop]

theorem digitsValue_eq (text : List Char) : digitsValue text = plainValue text :=
  halvedValue_eq _ rfl

/-! ## Decimals with a point -/

/-- A decimal: the digits before the point and those after it. -/
structure Decimal where
  whole : List Char
  fraction : List Char

namespace Decimal

/-- The decimal `scaled / 10 ^ places` with exactly `places` digits after the point. -/
def ofScaled (scaled places : Nat) : Decimal where
  whole := digits (scaled / tenPow places)
  fraction := if places = 0 then [] else padZeros places (digits (scaled % tenPow places))

/-- The same decimal without the zeros at its end. -/
def strip (d : Decimal) : Decimal :=
  { d with fraction := (d.fraction.reverse.dropWhile (· == '0')).reverse }

/-- The same decimal with more zeros at its end. -/
def extend (d : Decimal) (zeros : Nat) : Decimal :=
  { d with fraction := d.fraction ++ List.replicate zeros '0' }

/-- The point is written only before digits. -/
def text (d : Decimal) : List Char :=
  if d.fraction.isEmpty then d.whole else d.whole ++ '.' :: d.fraction

end Decimal

/-- `num / den` in units of `10 ^ -places`, rounded to the nearest, ties to even. -/
def scaled (num den places : Nat) : Nat := roundDiv (num * tenPow places) den

/-- The exponent of the greatest power of ten that is at most `num / den`. -/
def floorLog10 (num den : Nat) : Int :=
  if den ≤ num then (digitCount (num / den) : Int) - 1 else -(digitCount ((den - 1) / num) : Int)

/-- A decimal in scientific form: `digits · 10 ^ (exponent - (precision - 1))`, where `digits` has
`precision` decimal digits. -/
structure Scientific where
  digits : Nat
  exponent : Int

/-- `num / den` rounded to `precision` significant digits, ties to even. Digits that round up to
the next power of ten are written with the next exponent. -/
def significant (num den precision : Nat) : Scientific :=
  let exponent := floorLog10 num den
  let shift := (precision : Int) - 1 - exponent
  let rounded := roundDiv (num * tenPow shift.toNat) (den * tenPow (-shift).toNat)
  if rounded = tenPow precision then ⟨tenPow (precision - 1), exponent + 1⟩ else ⟨rounded, exponent⟩

end ValueMachine.Number
