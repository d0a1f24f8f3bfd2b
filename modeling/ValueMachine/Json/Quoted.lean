/-!
# Quoted texts

How a text is written between quotation marks, and how it is read back. Writing escapes the
quotation mark, the backslash and the control characters; reading knows all escapes of JSON.
-/

namespace ValueMachine.Json

/-! ## Writing -/

/-- The hexadecimal digit of a number below sixteen. -/
def hexDigit (n : Nat) : Char :=
  Char.ofNat (if n < 10 then '0'.toNat + n else 'a'.toNat + (n - 10))

/-- The escape of a control character by its code point. -/
def codeEscape (code : Nat) : List Char :=
  ['\\', 'u', '0', '0', hexDigit (code / 16), hexDigit (code % 16)]

/-- What stands for a character between quotation marks. -/
def escape (c : Char) : List Char :=
  if c = '"' then ['\\', '"']
  else if c = '\\' then ['\\', '\\']
  else if c = '\n' then ['\\', 'n']
  else if c = '\t' then ['\\', 't']
  else if c = '\r' then ['\\', 'r']
  else if c.toNat < 0x20 then codeEscape c.toNat
  else [c]

/-- The text between quotation marks. -/
def quote (text : List Char) : List Char := '"' :: text.flatMap escape ++ ['"']

/-! ## Reading -/

/-- Whether half a surrogate pair is read as the replacement character or refused. -/
inductive Strictness where
  | strict
  | lenient
  deriving DecidableEq

def hexValue? (c : Char) : Option Nat :=
  if '0' ≤ c ∧ c ≤ '9' then some (c.toNat - '0'.toNat)
  else if 'a' ≤ c ∧ c ≤ 'f' then some (c.toNat - 'a'.toNat + 10)
  else if 'A' ≤ c ∧ c ≤ 'F' then some (c.toNat - 'A'.toNat + 10)
  else none

/-- The number that four hexadecimal digits stand for. -/
def readHex? : List Char → Option (Nat × List Char)
  | a :: b :: c :: d :: rest => do
    let digits ← [a, b, c, d].mapM hexValue?
    return (digits.foldl (fun n digit => 16 * n + digit) 0, rest)
  | _ => none

def isHighSurrogate (code : Nat) : Bool := 0xD800 ≤ code && code < 0xDC00

def isLowSurrogate (code : Nat) : Bool := 0xDC00 ≤ code && code < 0xE000

/-- The second half of a surrogate pair, with its own escape. -/
def readLowSurrogate? : List Char → Option (Nat × List Char)
  | '\\' :: 'u' :: rest => do
    let (code, rest) ← readHex? rest
    if isLowSurrogate code then return (code, rest) else none
  | _ => none

/-- The character of a surrogate pair. -/
def pairCharacter (high low : Nat) : Char :=
  Char.ofNat (0x10000 + (high - 0xD800) * 0x400 + (low - 0xDC00))

/-- A character given by its code point. Characters beyond the first plane are two escapes. -/
def readCodeEscape? (strictness : Strictness) (text : List Char) : Option (Char × List Char) := do
  let (code, rest) ← readHex? text
  if !isHighSurrogate code && !isLowSurrogate code then return (Char.ofNat code, rest)
  else match strictness with
    | .lenient => return ('\ufffd', rest)
    | .strict =>
      if isHighSurrogate code then
        let (low, rest) ← readLowSurrogate? rest
        return (pairCharacter code low, rest)
      else none

/-- The character that a letter after a backslash stands for. -/
def shortEscape? : Char → Option Char
  | '"' => some '"'
  | '\\' => some '\\'
  | '/' => some '/'
  | 'b' => some '\x08'
  | 'f' => some '\x0c'
  | 'n' => some '\n'
  | 'r' => some '\r'
  | 't' => some '\t'
  | _ => none

/-- The character of an escape whose backslash has been read. -/
def readEscape? (strictness : Strictness) : List Char → Option (Char × List Char)
  | [] => none
  | c :: rest =>
    if c = 'u' then readCodeEscape? strictness rest else (shortEscape? c).map fun d => (d, rest)

/-- Reads up to the closing quotation mark. Control characters must be escaped; `fuel` is a text
that is at least as long. -/
def readUnquoted? (strictness : Strictness) : (fuel : List Char) → List Char →
    Option (List Char × List Char)
  | [], _ => none
  | _, [] => none
  | _ :: fuel, c :: rest =>
    if c = '"' then some ([], rest)
    else if c = '\\' then do
      let (d, rest) ← readEscape? strictness rest
      let (text, rest) ← readUnquoted? strictness fuel rest
      return (d :: text, rest)
    else if c.toNat < 0x20 then none
    else do
      let (text, rest) ← readUnquoted? strictness fuel rest
      return (c :: text, rest)

/-- Reads a text between quotation marks off the front. -/
def readQuoted? (strictness : Strictness) : List Char → Option (List Char × List Char)
  | '"' :: rest => readUnquoted? strictness rest rest
  | _ => none

end ValueMachine.Json
