import ValueMachine.Text.Utf8

/-!
# Lines

A file is cut into lines after each line feed; a terminator is a line feed with the carriage return
before it, if there is one. The console reads one line at a time from a byte stream.
-/

namespace ValueMachine.Text

/-- Cuts after each line feed, which stays with its line. -/
def linesWithEnds : List Char → List (List Char)
  | [] => []
  | c :: text =>
    if c = '\n' then [c] :: linesWithEnds text
    else match linesWithEnds text with
      | [] => [[c]]
      | line :: lines => (c :: line) :: lines

/-- Drops the given character from the end, if it stands there. -/
def dropLast? (c : Char) (line : List Char) : Option (List Char) :=
  if line.getLast? = some c then some line.dropLast else none

/-- Drops a terminator; a carriage return goes only with a line feed. -/
def dropTerminator (line : List Char) : List Char :=
  match dropLast? '\n' line with
  | none => line
  | some line => (dropLast? '\r' line).getD line

/-- The lines of a text, without their terminators. -/
def lines (text : List Char) : List (List Char) := (linesWithEnds text).map dropTerminator

/-- The outcome of reading one line from a stream. -/
inductive LineRead where
  | line (text : String)
  | endOfInput
  | illFormed

/-- Splits a stream after its first line feed. -/
def takeLine : List UInt8 → List UInt8 × List UInt8
  | [] => ([], [])
  | byte :: rest =>
    if byte = 0x0A then ([byte], rest)
    else
      let (line, rest) := takeLine rest
      (byte :: line, rest)

/-- Drops a line feed at the end and then a carriage return at the end. -/
def dropConsoleEnd (line : List Char) : List Char :=
  let line := (dropLast? '\n' line).getD line
  (dropLast? '\r' line).getD line

/-- Reads one line off a stream of bytes. The line is used up even if it is not UTF-8. -/
def readLine (stream : List UInt8) : LineRead × List UInt8 :=
  let (line, rest) := takeLine stream
  if line.isEmpty then (.endOfInput, rest)
  else match Utf8.decode? line with
    | some text => (.line (.ofList (dropConsoleEnd text.toList)), rest)
    | none => (.illFormed, rest)

end ValueMachine.Text
