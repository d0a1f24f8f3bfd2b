import ValueMachine.Json.Reader
import ValueMachine.Operation
import ValueMachine.Value.Encoder

/-!
# Values as JSON

A value is written in one pass; a text is read to a tree, from which values are made. Both
directions share one limit on depth: writing cuts what lies deeper, reading refuses it.
-/

namespace ValueMachine

open Json (Document)

namespace Value

mutual

/-- The value of a document. -/
def ofDocument : Document → HeapM Value
  | .null => return .null
  | .bool b => return .bool b
  | .number x => ofNumber x
  | .text content => ofText content
  | .array items => do ofList (← ofDocuments items)
  | .object members => do ofEntries (← ofMembers members)

def ofDocuments : List Document → HeapM (List Value)
  | [] => return []
  | item :: items => do
    let v ← ofDocument item
    return v :: (← ofDocuments items)

def ofMembers : List (String × Document) → HeapM (List (String × Value))
  | [] => return []
  | (name, document) :: members => do
    let v ← ofDocument document
    return (name, v) :: (← ofMembers members)

end

def toJson (v : Value) : HeapM Value := do
  ofChars ((← get).json (← read).jsonMaxDepth v)

def encode (v : Value) : Attempt Value := toJson v

/-- The value that a JSON text stands for. -/
def decode (text : Value) : Attempt Value := do
  let content ← require Payload.text? text "parseJSON" "argument must be a string" (nullOf .object)
  if (← read).jsonMaxDepth < Json.nesting content.toList then
    failNull (.argument "parseJSON" "nesting too deep") .object
  else match (← get).outside.document? content.toList with
    | some document => ofDocument document
    | none => failNull (.argument "parseJSON" "invalid JSON format") .object

end Value

end ValueMachine
