import ValueMachine.Number.Decimal
import ValueMachine.Number.Rounding

/-!
# Texts of numbers

Four forms of a number. All of them are exact decimals of the double, cut or rounded:
* `general precision`: significant digits, with an exponent for very small and very large numbers,
  and no zeros at the end;
* `plain`: integers below `10 ^ 15` in full, all else in general form with 16 digits;
* `tidy`: the printer's form, which drops the noise of binary fractions;
* `cut places`: a fixed number of places, the further ones dropped.
Where the number of digits or places is asked for by a program, it can be too large: `general?` and
`cut?` are these forms within the limits of texts.
-/

namespace ValueMachine.Number

def signText (negative : Bool) : List Char := if negative then ['-'] else []

/-- A finite number with a fixed number of places, ties to even. -/
def fixedText (negative : Bool) (mantissa : Nat) (exponent : Int) (places : Nat) : List Char :=
  signText negative ++
    (Decimal.ofScaled (scaled (numerator mantissa exponent) (denominator exponent) places)
      places).text

/-- Sign and at least two digits. -/
def exponentText (exponent : Int) : List Char :=
  (if exponent < 0 then '-' else '+') :: padZeros 2 (digits exponent.natAbs)

/-- A positive number in general form: with `X` the decimal exponent of the number rounded to
`precision` digits, an exponent is written exactly for `X < -4` and `X ≥ precision`. -/
def generalMagnitude (mantissa : Nat) (exponent : Int) (precision : Nat) : List Char :=
  let num := numerator mantissa exponent
  let den := denominator exponent
  let rounded := significant num den precision
  if rounded.exponent < -4 ∨ (precision : Int) ≤ rounded.exponent then
    (Decimal.ofScaled rounded.digits (precision - 1)).strip.text
      ++ 'e' :: exponentText rounded.exponent
  else
    let places := ((precision : Int) - 1 - rounded.exponent).toNat
    (Decimal.ofScaled (scaled num den places) places).strip.text

/-- No double has as many significant digits as this, nor as many places. -/
def allDigits : Nat := 1100

/-- The general form with `precision` significant digits, at least one. -/
def general (x : Float) (precision : Nat) : List Char :=
  match read x with
  | .nan => "nan".toList
  | .infinite negative => signText negative ++ "inf".toList
  | .finite negative mantissa exponent =>
    signText negative ++
      if mantissa = 0 then ['0']
      else generalMagnitude mantissa exponent (min (max precision 1) allDigits)

/-- Digits that tell two doubles apart in nearly all cases; used wherever none are asked for. -/
def standardPrecision : Nat := 16

/-- The whole number itself, without a point. -/
def wholeText (x : Float) : List Char :=
  match read x with
  | .finite negative mantissa exponent => fixedText negative mantissa exponent 0
  | _ => general x standardPrecision

/-- Integers below `10 ^ 15` in full, all else in general form. -/
def plain (x : Float) : List Char :=
  if isWhole x && x.abs < 1e15 then wholeText x else general x standardPrecision

/-- Places beyond those kept that are rounded before the cut, to hide binary noise. -/
def guardPlaces : Nat := 2

/-- A finite number in units of `10 ^ -places`, rounded with two more places and then cut. -/
def cutScaled (mantissa : Nat) (exponent : Int) (places : Nat) : Nat :=
  scaled (numerator mantissa exponent) (denominator exponent) (places + guardPlaces)
    / tenPow guardPlaces

/-- Exactly `places` digits after the point, the further ones dropped. -/
def cut (x : Float) (places : Nat) : List Char :=
  match read x with
  | .nan => "NaN".toList
  | .infinite negative => signText negative ++ "inf".toList
  | .finite negative mantissa exponent =>
    let own := min places allDigits
    signText negative ++
      ((Decimal.ofScaled (cutScaled mantissa exponent own) own).extend (places - own)).text

/-- The double that `cut x places` reads back as. -/
def cutValue (x : Float) (places : Nat) : Float :=
  match read x with
  | .finite negative mantissa exponent =>
    nearest negative (cutScaled mantissa exponent places) (tenPow places)
  | _ => x

/-- The first number of places from `places` on, at most 15, at which the cut decimal is close. -/
def closePlaces? (x : Float) : (fuel places : Nat) → Option Nat
  | 0, _ => none
  | fuel + 1, places =>
    if (cutValue x places - x).abs < 1e-15 then some places else closePlaces? x fuel (places + 1)

/-- The printer's form. A number within `10 ^ -9` of an integer prints as that integer; else the
shortest cut decimal of at most 15 places that comes close; very small and very large numbers, and
those that nothing came close to, are in general form. -/
def tidy (x : Float) : List Char :=
  match read x with
  | .nan => "NaN".toList
  | .infinite negative => (if negative then '-' else '+') :: "Inf".toList
  | .finite negative mantissa exponent =>
    let integer := round x
    if (x - integer).abs < 1e-9 && integer.abs < 1e15 then wholeText integer
    else if x.abs < 1e-4 || 1e15 ≤ x.abs then general x standardPrecision
    else match closePlaces? x 15 1 with
      | some places =>
        signText negative ++
          (Decimal.ofScaled (cutScaled mantissa exponent places) places).strip.text
      | none => general x standardPrecision

/-! ## Limits -/

/-- The greatest number of places that a number can be rounded to in a text. -/
def maxPlaces : Nat := twoPow 16 - 1

/-- The most places that the general form of a positive number is rounded to: those of scientific
form, and those after the point unless the number is too small to be written without exponent. -/
def generalPlaces (mantissa : Nat) (exponent : Int) (precision : Nat) : Nat :=
  let rounded := significant (numerator mantissa exponent) (denominator exponent)
    (min precision allDigits)
  max (precision - 1)
    (if rounded.exponent < -4 then 0 else ((precision : Int) - 1 - rounded.exponent).toNat)

/-- The general form, unless it takes too many places. -/
def general? (x : Float) (precision : Nat) : Option (List Char) :=
  match read x with
  | .finite _ mantissa exponent =>
    if mantissa ≠ 0 ∧ maxPlaces < generalPlaces mantissa exponent (max precision 1) then none
    else some (general x precision)
  | _ => some (general x precision)

/-- The digits before the point, of the number rounded to some places. -/
def wholePart (x : Float) (places : Nat) : List Char :=
  match read x with
  | .finite negative mantissa exponent =>
    signText negative ++
      digits (scaled (numerator mantissa exponent) (denominator exponent) places / tenPow places)
  | _ => cut x 0

/-- The cut form, unless it takes too many places. Places are counted modulo `2 ^ 64`: where the
count of those that are rounded to starts again from zero, none are written. -/
def cut? (x : Float) (places : Nat) : Option (List Char) :=
  let rounded := (places + guardPlaces) % twoPow 64
  if maxPlaces < rounded then none
  else if places < rounded then some (cut x places)
  else some (wholePart x rounded)

end ValueMachine.Number
