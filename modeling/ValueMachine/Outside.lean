import ValueMachine.Json.Reader
import ValueMachine.Number.Rounding
import ValueMachine.Value

/-!
# What a heap leaves open

Programs read numbers and JSON with readers that the libraries under them supply, and cells hold more
than the values in them: which NaN it is, how much room a buffer has. None of this is decided here, so
what is said of heaps holds whatever it is. In the standard surroundings the readers follow their
grammars and round to the nearest double, and there is one NaN and no room to spare.
-/

namespace ValueMachine

/-- What programs rely on and operations do not change. -/
structure Outside where
  /-- The number of a text that is a numeral and nothing more. -/
  numeral? : List Char → Option Float
  /-- The document that a JSON text stands for. -/
  document? : List Char → Option Json.Document
  /-- Where the body behind an entry point lies in memory. -/
  address : EntryPoint → Nat
  /-- Which NaN a cell holds, if it holds one. -/
  nan : Value → Number.NaN
  /-- How many bytes a buffer has room for besides those in it. -/
  spareBytes : Value → Nat

/-- The places of the bodies in three interleaved tables of sixteen-byte stubs. -/
def EntryPoint.stubAddress : EntryPoint → Nat
  | builtin b => 0x555555560000 + 16 * (3 * (Builtin.all.idxOf b))
  | native index => 0x555555560000 + 16 * (3 * index + 1)
  | foreign index => 0x555555560000 + 16 * (3 * index + 2)

def Outside.standard : Outside where
  numeral? := Number.readWhole?
  document? := Json.Document.read?
  address := EntryPoint.stubAddress
  nan _ := .quiet
  spareBytes _ := 0

/-- Surroundings that bound the exponents of numerals. -/
def Outside.bounded : Outside := { standard with numeral? := Number.readBounded? }

end ValueMachine
