/-!
# UTF-8

Decoding reads bytes one at a time and remembers how many continuation bytes are owed. A byte that
does not fit ends the sequence before it and is read again as a first byte, so every ill-formed
sequence is a longest beginning of a well-formed one, or a single byte.
-/

namespace ValueMachine.Text.Utf8

/-- A character begun: the continuation bytes owed, the range of the next one, and the bits so
far. -/
structure Pending where
  owed : Nat
  low : Nat
  high : Nat
  bits : Nat

/-- What a first byte begins. -/
inductive Start where
  | complete (c : Char)
  | pending (p : Pending)
  | illFormed

/-- The first byte of a sequence. Ranges of the second byte keep out overlong forms, surrogates and
code points above the last. -/
def start (byte : UInt8) : Start :=
  let b := byte.toNat
  if b < 0x80 then .complete (Char.ofNat b)
  else if 0xC2 ≤ b && b ≤ 0xDF then .pending ⟨1, 0x80, 0xBF, b - 0xC0⟩
  else if 0xE0 ≤ b && b ≤ 0xEF then
    .pending ⟨2, if b = 0xE0 then 0xA0 else 0x80, if b = 0xED then 0x9F else 0xBF, b - 0xE0⟩
  else if 0xF0 ≤ b && b ≤ 0xF4 then
    .pending ⟨3, if b = 0xF0 then 0x90 else 0x80, if b = 0xF4 then 0x8F else 0xBF, b - 0xF0⟩
  else .illFormed

/-- The characters of a byte sequence, with `none` for each ill-formed sequence. -/
def decodeFrom : Option Pending → List UInt8 → List (Option Char)
  | none, [] => []
  | some _, [] => [none]
  | none, byte :: rest =>
    match start byte with
    | .complete c => some c :: decodeFrom none rest
    | .pending p => decodeFrom (some p) rest
    | .illFormed => none :: decodeFrom none rest
  | some p, byte :: rest =>
    let b := byte.toNat
    if p.low ≤ b ∧ b ≤ p.high then
      let bits := p.bits * 64 + b % 64
      if p.owed = 1 then some (Char.ofNat bits) :: decodeFrom none rest
      else decodeFrom (some ⟨p.owed - 1, 0x80, 0xBF, bits⟩) rest
    else
      none :: match start byte with
        | .complete c => some c :: decodeFrom none rest
        | .pending p => decodeFrom (some p) rest
        | .illFormed => none :: decodeFrom none rest

def decode (bytes : List UInt8) : List (Option Char) := decodeFrom none bytes

/-- What stands in a text for a sequence that is no character. -/
def replacement : Char := '\ufffd'

/-- Every ill-formed sequence becomes the replacement character. -/
def decodeLossy (bytes : List UInt8) : String :=
  .ofList ((decode bytes).map (·.getD replacement))

/-- The text, if every sequence is well-formed. -/
def decode? (bytes : List UInt8) : Option String :=
  ((decode bytes).mapM id).map .ofList

def encode (text : String) : List UInt8 := text.toUTF8.toList

end ValueMachine.Text.Utf8
