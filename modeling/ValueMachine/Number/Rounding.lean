import ValueMachine.Number.Exact

/-!
# Whole parts, remainders and conversions to integers

Each function reads the exact value of its argument and rounds it in `Nat` arithmetic. Results keep
the sign of the argument, so a negative number rounded to zero is minus zero.
-/

namespace ValueMachine.Number

/-- Ways to make a nonnegative quotient whole, given whether the number itself is negative. -/
abbrev WholeRule := (negative : Bool) → (num den : Nat) → Nat

/-- Applies a rule to the magnitude; a number that is whole already is kept. -/
def whole (rule : WholeRule) (x : Float) : Float :=
  match read x with
  | .finite negative mantissa exponent =>
    if 0 ≤ exponent then x
    else nearest negative (rule negative mantissa (denominator exponent)) 1
  | _ => x

/-- Drops the part after the point. -/
def trunc : Float → Float := whole fun _ num den => num / den

/-- The greatest integer that is not above. -/
def floor : Float → Float :=
  whole fun negative num den => if negative then (num + (den - 1)) / den else num / den

/-- The least integer that is not below. -/
def ceil : Float → Float :=
  whole fun negative num den => if negative then num / den else (num + (den - 1)) / den

/-- The nearest integer; a half goes away from zero. -/
def round : Float → Float := whole fun _ num den => (2 * num + den) / (2 * den)

/-- The integer part as an integer: zero for NaN, and for an infinity the bound on its side.
Values outside the bounds are clamped to them. -/
def toInt (low high : Int) (x : Float) : Int :=
  match read x with
  | .nan => 0
  | .infinite negative => if negative then low else high
  | .finite negative mantissa exponent =>
    let magnitude : Int := (numerator mantissa exponent / denominator exponent : Nat)
    max low (min high (if negative then -magnitude else magnitude))

/-- The integer part among the signed integers of 64 bits. -/
def toInt64 : Float → Int := toInt (-(twoPow 63)) (twoPow 63 - 1)

/-- The integer part among the signed integers of 32 bits. -/
def toInt32 : Float → Int := toInt (-(twoPow 31)) (twoPow 31 - 1)

/-- The integer part among the counts of 64 bits; negative numbers give zero. -/
def toCount (x : Float) : Nat := (toInt 0 (twoPow 64 - 1) x).toNat

/-- The integer part modulo 256, of the integer part among 64-bit integers. -/
def toByte (x : Float) : UInt8 := UInt8.ofNat (toInt64 x % 256).toNat

/-- Exact remainder of the division that truncates, with the sign of the dividend. It is NaN for
an infinite dividend and for a zero divisor, and an infinite divisor leaves the dividend. -/
def remainder (x y : Float) : Float :=
  match read x, read y with
  | .nan, _ | _, .nan | .infinite _, _ => nan
  | .finite .., .infinite _ => x
  | .finite negative m e, .finite _ n f =>
    if n = 0 then nan
    else
      let unit := min e f
      let rest := m * twoPow (e - unit).toNat % (n * twoPow (f - unit).toNat)
      nearest negative (numerator rest unit) (denominator unit)

/-- The bits that tell one NaN from another: its sign and a fraction that is not zero. -/
structure NaN where
  negative : Bool
  fraction : Nat
  fraction_pos : 0 < fraction
  fraction_lt : fraction < twoPow 52

/-- The NaN that arithmetic makes if it is given none. -/
def NaN.quiet : NaN := ⟨false, twoPow 51, by decide, by decide⟩

/-- The bits of a NaN without its sign. -/
def NaN.magnitudeBits (n : NaN) : Nat := infinityBits + n.fraction

/-- Key of the order of doubles by sign and magnitude: below zero, what is larger comes first. -/
def orderKey (negative : Bool) (magnitude : Nat) : Int :=
  if negative then -(magnitude : Int) - 1 else magnitude

/-- Key of the order in which every double has a place: by value, minus zero before zero, and a NaN
beyond the infinity of its sign. Doubles that are NaN are told apart by what is given for them. -/
def totalKey (x : Float) (n : NaN) : Int :=
  match read x with
  | .nan => orderKey n.negative n.magnitudeBits
  | _ => orderKey (twoPow 63 ≤ x.toBits.toNat) (x.toBits.toNat % twoPow 63)

/-- Whether a number is an integer. Infinities and NaN are none. -/
def isWhole (x : Float) : Bool :=
  match read x with
  | .finite _ mantissa exponent => mantissa % denominator exponent = 0
  | _ => false

/-- Power by repeated squaring, with one rounding for each product. -/
def powNat (base : Float) (n : Nat) : Float :=
  go (n.log2 + 1) base n 1.0
where
  go : Nat → Float → Nat → Float → Float
    | 0, _, _, product => product
    | fuel + 1, square, n, product =>
      let product := if n % 2 = 1 then product * square else product
      if n / 2 = 0 then product else go fuel (square * square) (n / 2) product

/-- Power with an integer exponent; a negative one takes the reciprocal at the end. -/
def powInt (base : Float) (i : Int) : Float :=
  if i < 0 then 1.0 / powNat base i.natAbs else powNat base i.natAbs

end ValueMachine.Number
