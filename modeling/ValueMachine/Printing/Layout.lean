import ValueMachine.Number.Format
import ValueMachine.Heap
import ValueMachine.Printing.Piece

/-!
# Laying out values

How values are shown to a reader: texts in quotation marks without escapes, numbers in tidy form,
arrays and objects with their content. What lies too deep is cut off, and an array or object inside
itself is marked. Boxes stand for their content.
-/

namespace ValueMachine

namespace Printing

def faint (content : String) : Piece := .painted .faint content.toList

def bracket (depth : Nat) (content : String) : Piece := .painted (.bracket depth) content.toList

/-- Rows of pieces with commas between them. -/
def commas : List (List Piece) → List Piece
  | [] => []
  | [row] => row
  | row :: rows => row ++ .plain [',', ' '] :: commas rows

/-- The text in quotation marks, as it is. -/
def quoted (content : String) : List Char := '"' :: content.toList ++ ['"']

/-- A field of an object with a payload of its own. -/
def field (name : String) (content : List Char) : List Char := name.toList ++ ": ".toList ++ content

def braced (fields : List (List Char)) : List Char :=
  " \x7b ".toList ++ List.intercalate ", ".toList fields ++ " \x7d".toList

def integerText (n : Int) : List Char :=
  Number.signText (n < 0) ++ Number.digits n.natAbs

def extensionFields : Extension → List (List Char)
  | .buffer bytes => [field "size" (Number.digits bytes.size), field "type" (quoted "Buffer")]
  | .fileHandle file =>
    [field "path" (quoted file.path), field "mode" (quoted file.mode),
      field "position" (Number.digits file.position),
      field "isOpen" (if file.isOpen then "true" else "false").toList]
  | .error error =>
    [field "message" (quoted error.message), field "code" (integerText error.code),
      field "errorType" (quoted error.errorType)]

def extensionPieces (e : Extension) : List Piece :=
  [.painted .typeName e.typeName.toList, .plain (braced (extensionFields e))]

/-- Where the body is, in hexadecimal digits, and the counts. -/
def functionSummary (address : EntryPoint → Nat) (c : Closure) : List Char :=
  "[Function: 0x".toList ++ Nat.toDigits 16 (address c.entry) ++ ", params=".toList ++
    Number.digits c.paramCount ++ ", captured=".toList ++ Number.digits c.captured.length ++ [']']

end Printing

namespace Heap

open Printing

/-- The pieces of a value at a nesting depth, with room for `room` further levels. -/
def layout (h : Heap) : (room depth : Nat) → (ancestors : List Value) → Value → List Piece
  | 0, _, _, _ => [faint "[...]"]
  | room + 1, depth, ancestors, v =>
    let v := h.content v
    let inside := h.layout room (depth + 1) (v :: ancestors)
    match h.payload v with
    | .number x => [.painted .number (Number.tidy x)]
    | .bool b => [.painted .truth (if b then "true" else "false").toList]
    | .null => [faint "null"]
    | .undefined => [faint "undef"]
    | .text _ content => [.painted .text (quoted content)]
    | .function _ => [.functionMark]
    | .extension e => extensionPieces e
    | .box _ => []
    | .array items =>
      if items.isEmpty then [bracket depth "[]"]
      else if v ∈ ancestors then [faint "[Circular]"]
      else bracket depth "[" :: commas (items.toList.map inside) ++ [bracket depth "]"]
    | .object fields =>
      if fields.isEmpty then [bracket depth "\x7b\x7d"]
      else if v ∈ ancestors then [faint "[Circular]"]
      else
        let rows := fields.toList.map fun (key, item) =>
          .plain key.toList :: .plain [':', ' '] :: inside item
        bracket depth "\x7b" :: .plain [' '] :: commas rows ++
          [.plain [' '], bracket depth "\x7d"]

/-- The text of a value as an element of a container. -/
def renderNested (h : Heap) (maxDepth : Nat) (colors : Bool) (v : Value) : List Char :=
  Printing.write colors (h.layout maxDepth 0 [] v)

/-- The text of a value on its own: texts as they are, functions with a summary. -/
def render (h : Heap) (maxDepth : Nat) (colors : Bool) (v : Value) : List Char :=
  match h.payload v with
  | .text _ content => content.toList
  | .function c => Piece.write colors (.painted .function (functionSummary h.outside.address c))
  | _ => h.renderNested maxDepth colors v

/-- Values on one line, with blanks between them. -/
def renderLine (h : Heap) (maxDepth : Nat) (colors : Bool) (vs : List Value) : List Char :=
  List.intercalate [' '] (vs.map (h.render maxDepth colors))

end Heap

end ValueMachine
