import ValueMachine.Number.Power

/-!
# Exact values of doubles

A double is read off its bits as NaN, an infinity or `± mantissa · 2 ^ exponent`, and a quotient of
two natural numbers is written back as the double nearest to it. Everything between the two is
arithmetic on natural numbers, so statements about numbers and their texts are statements about
`Nat` and `Int`.

Results:
* `roundDiv_mul_self`: rounding an exact multiple gives the multiple;
* `two_mul_roundDiv_le`, `le_two_mul_roundDiv`: a rounded quotient is within half a unit.
-/

namespace ValueMachine.Number

/-! ## Rounded quotients -/

/-- The natural number nearest to `num / den`; a half goes to the even neighbour. -/
def roundDiv (num den : Nat) : Nat :=
  let quotient := num / den
  let rest := num % den
  if 2 * rest < den then quotient
  else if den < 2 * rest then quotient + 1
  else quotient + quotient % 2

theorem roundDiv_mul_self (k : Nat) {den : Nat} (h : 0 < den) : roundDiv (k * den) den = k := by
  simp [roundDiv, Nat.mul_div_cancel _ h, h]

theorem two_mul_roundDiv_le (num : Nat) {den : Nat} (h : 0 < den) :
    2 * (roundDiv num den * den) ≤ 2 * num + den := by
  have key := Nat.div_add_mod num den
  have comm := Nat.mul_comm den (num / den)
  have small := Nat.mod_lt num h
  unfold roundDiv
  simp only
  split
  · omega
  · split
    · rw [Nat.add_mul]; omega
    · rcases Nat.mod_two_eq_zero_or_one (num / den) with even | odd
      · rw [even, Nat.add_zero]; omega
      · rw [odd, Nat.add_mul]; omega

theorem le_two_mul_roundDiv (num : Nat) {den : Nat} (h : 0 < den) :
    2 * num ≤ 2 * (roundDiv num den * den) + den := by
  have key := Nat.div_add_mod num den
  have comm := Nat.mul_comm den (num / den)
  have small := Nat.mod_lt num h
  unfold roundDiv
  simp only
  split
  · omega
  · split
    · rw [Nat.add_mul]; omega
    · rcases Nat.mod_two_eq_zero_or_one (num / den) with even | odd
      · rw [even, Nat.add_zero]; omega
      · rw [odd, Nat.add_mul]; omega

/-! ## Reading a double -/

/-- What the bits of a double stand for; a finite one is `± mantissa · 2 ^ exponent`. -/
inductive Reading where
  | nan
  | infinite (negative : Bool)
  | finite (negative : Bool) (mantissa : Nat) (exponent : Int)
  deriving DecidableEq

/-- The bits of an infinity without its sign: the exponent field is full, the fraction empty. -/
def infinityBits : Nat := 2047 * twoPow 52

/-- Splits the bits into sign, exponent field and fraction; a field of zero is a subnormal. -/
def Reading.ofBits (bits : Nat) : Reading :=
  let negative := decide (twoPow 63 ≤ bits)
  let field : Nat := bits / twoPow 52 % twoPow 11
  let fraction : Nat := bits % twoPow 52
  if field = 2047 then
    if fraction = 0 then .infinite negative else .nan
  else if field = 0 then .finite negative fraction (-1074)
  else .finite negative (twoPow 52 + fraction) ((field : Int) - 1075)

/-- The exact value of a double. -/
def read (x : Float) : Reading := .ofBits x.toBits.toNat

/-- Numerator of `mantissa · 2 ^ exponent` over `denominator exponent`. -/
def numerator (mantissa : Nat) (exponent : Int) : Nat := mantissa * twoPow exponent.toNat

/-- Denominator that goes with `numerator`: one unless the exponent is negative. -/
def denominator (exponent : Int) : Nat := twoPow (-exponent).toNat

theorem denominator_pos (exponent : Int) : 0 < denominator exponent :=
  twoPow_pos _

/-- Holds for the doubles with a sign bit, zeros and infinities included. -/
def isNegative (x : Float) : Bool :=
  match read x with
  | .nan => false
  | .infinite negative => negative
  | .finite negative _ _ => negative

/-! ## The nearest double -/

/-- The exponent of the greatest power of two that is at most `num / den`. -/
def floorLog2 (num den : Nat) : Int :=
  let estimate := (num.log2 : Int) - den.log2
  if den * twoPow estimate.toNat ≤ num * twoPow (-estimate).toNat then estimate
  else estimate - 1

/-- Bits of the double nearest to `num / den`, ties to the even mantissa: the last bit of the
mantissa has the exponent `floorLog2 - 52`, but never less than `-1074`, and a mantissa that rounds
up to `2 ^ 53` carries into the exponent field. -/
def nearestBits (num den : Nat) : Nat :=
  if num = 0 then 0
  else
    let unit := max (floorLog2 num den - 52) (-1074)
    let mantissa := roundDiv (num * twoPow (-unit).toNat) (den * twoPow unit.toNat)
    min ((unit + 1074).toNat * twoPow 52 + mantissa) infinityBits

/-- The double with the given sign whose magnitude has the given bits. -/
def ofMagnitude (negative : Bool) (bits : Nat) : Float :=
  Float.ofBits (UInt64.ofNat ((if negative then twoPow 63 else 0) + bits))

/-- The double nearest to `± num / den`. -/
def nearest (negative : Bool) (num den : Nat) : Float :=
  ofMagnitude negative (nearestBits num den)

/-- The double nearest to an integer. -/
def ofInt (i : Int) : Float := nearest (decide (i < 0)) i.natAbs 1

/-- The double nearest to a natural number. -/
def ofNat (n : Nat) : Float := nearest false n 1

def nan : Float := Float.ofBits 0x7FF8000000000000

def infinity (negative : Bool) : Float := ofMagnitude negative infinityBits

def zero (negative : Bool) : Float := ofMagnitude negative 0

end ValueMachine.Number
