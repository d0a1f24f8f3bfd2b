import ValueMachine.Text.Search

/-!
# Offsets in texts

A text is stored as the bytes of its UTF-8 form. Positions count characters and offsets count bytes.
Searching finds an offset, and only between two characters can a text be cut at an offset.
-/

namespace ValueMachine.Text

/-- The bytes of characters. -/
def bytesOf (text : List Char) : List UInt8 := text.flatMap String.utf8EncodeChar

theorem bytesOf_cons (c : Char) (text : List Char) :
    bytesOf (c :: text) = String.utf8EncodeChar c ++ bytesOf text := rfl

theorem bytesOf_append (text text' : List Char) :
    bytesOf (text ++ text') = bytesOf text ++ bytesOf text' := List.flatMap_append

/-- The number of bytes of a text. -/
def byteSize : List Char → Nat
  | [] => 0
  | c :: text => c.utf8Size + byteSize text

/-- What stands before and after an offset; none for an offset inside a character or past the
end. -/
def splitAt? (offset : Nat) : List Char → Option (List Char × List Char)
  | [] => if offset = 0 then some ([], []) else none
  | c :: text =>
    if offset = 0 then some ([], c :: text)
    else if c.utf8Size ≤ offset then
      (splitAt? (offset - c.utf8Size) text).map fun (before, after) => (c :: before, after)
    else none

/-- The characters between two offsets. -/
def between? (start stop : Nat) (text : List Char) : Option (List Char) := do
  let (_, rest) ← splitAt? start text
  let (part, _) ← splitAt? (stop - start) rest
  return part

/-- The offset of a position; the end of the text has one, and what is past the end has none. -/
def offsetOf? : (position : Nat) → List Char → Option Nat
  | 0, _ => some 0
  | _ + 1, [] => none
  | position + 1, c :: text => (offsetOf? position text).map (c.utf8Size + ·)

/-- The position of the first occurrence of a pattern, which is looked for among the bytes. -/
def position? (pattern text : List Char) : Option Nat := do
  let offset ← find? (bytesOf pattern) (bytesOf text)
  let (before, _) ← splitAt? offset text
  return before.length

/-- The part of a text that begins at a position and has a number of characters, at least none and at
most what is left of the text. It is cut out at the offsets of its two ends. -/
def part? (position : Nat) (count : Int) (text : List Char) : Option (List Char) :=
  let length := (max 0 (min count ((text.length : Int) - position))).toNat
  let start := (offsetOf? position text).getD (byteSize text)
  let stop := (offsetOf? (position + length) text).getD (byteSize text)
  between? start stop text

end ValueMachine.Text
