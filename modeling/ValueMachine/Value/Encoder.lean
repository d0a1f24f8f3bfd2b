import ValueMachine.Heap
import ValueMachine.Json.Quoted
import ValueMachine.Number.Format

/-!
# Writing values as JSON

The encoder writes a value in one pass. The arrays and objects that it is inside of are on a stack,
the innermost one on top: one that is met again below itself is written as a mark. Boxes stand for
their content and add no level.
-/

namespace ValueMachine

/-- What stands for an array or object inside itself. -/
def circularMark : String := "[Circular]"

/-- What stands for a value that lies too deep. -/
def depthMark : String := "[Max Depth Exceeded]"

/-- What has been written, and where the encoder is. -/
structure Encoder where
  out : String
  /-- The arrays and objects that are being written, the innermost one first. -/
  stack : List Value

namespace Encoder

def start : Encoder := ⟨"", []⟩

def put (text : List Char) (e : Encoder) : Encoder := { e with out := e.out ++ .ofList text }

def putQuoted (text : String) : Encoder → Encoder := put (Json.quote text.toList)

def enter (v : Value) (e : Encoder) : Encoder := { e with stack := v :: e.stack }

def leave (e : Encoder) : Encoder := { e with stack := e.stack.tail }

/-- Writes parts with commas between them. -/
def putList {α : Type} (write : α → Encoder → Encoder) : List α → Encoder → Encoder
  | [], e => e
  | [part], e => write part e
  | part :: parts, e => putList write parts ((write part e).put [','])

/-- Writes what is in an array or object between brackets, unless that is being written already. -/
def putContainer (v : Value) (opening closing : Char) (inside : Encoder → Encoder) (e : Encoder) :
    Encoder :=
  if v ∈ e.stack then e.putQuoted circularMark
  else ((inside ((e.enter v).put [opening])).put [closing]).leave

/-- Writes a value of at most `depth` levels; numbers that are not finite have no JSON form. -/
def write (h : Heap) : (depth : Nat) → Value → Encoder → Encoder
  | 0, _, e => e.putQuoted depthMark
  | depth + 1, v, e =>
    let v := h.content v
    match h.payload v with
    | .number x =>
      e.put (if x.isFinite then Number.general x Number.standardPrecision else "null".toList)
    | .bool b => e.put (if b then "true" else "false").toList
    | .text _ content => e.putQuoted content
    | .extension x => e.putQuoted x.typeName
    | .array items => e.putContainer v '[' ']' (putList (write h depth) items.toList)
    | .object fields =>
      e.putContainer v '\x7b' '\x7d'
        (putList (fun (key, item) e => write h depth item ((e.putQuoted key).put [':']))
          fields.toList)
    | _ => e.put "null".toList

end Encoder

/-- The JSON text of a value. -/
def Heap.json (h : Heap) (maxDepth : Nat) (v : Value) : List Char :=
  (Encoder.start.write h maxDepth v).out.toList

end ValueMachine
