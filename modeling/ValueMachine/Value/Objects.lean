import ValueMachine.Operation

/-!
# Objects

Fields are read from plain objects and, as virtual properties, from objects with a payload of their
own; only plain objects can be written. Entries are listed in the order of their first insertion.
-/

namespace ValueMachine.Value

/-! ## Reading fields -/

/-- The fields that an object with a payload of its own shows. -/
def virtualProperty? (object : Value) (e : Extension) (name : String) :
    HeapM (Option Value) := do
  if name = "type" then return some (← ofStaticText e.typeName)
  match e with
  | .buffer bytes =>
    match name with
    | "size" => return some (← ofNat bytes.size)
    | "capacity" => return some (← ofNat (bytes.size + (← get).outside.spareBytes object))
    | _ => return none
  | .fileHandle file =>
    match name with
    | "path" => return some (← ofText file.path)
    | "mode" => return some (← ofText file.mode)
    | "isOpen" => return some (.bool file.isOpen)
    | "position" => return some (← ofNat file.position)
    | _ => return none
  | .error error =>
    match name with
    | "message" => return some (← ofText error.message)
    | "code" => return some (← ofNumber (Number.ofInt error.code))
    | "errorType" => return some (← ofText error.errorType)
    | _ => return none

/-- The value of a field of any object. -/
def readField (object : Value) (key : String) : Attempt Value := do
  match ← payloadOf object with
  | .extension e =>
    match ← virtualProperty? object e key with
    | some v => return v
    | none => fail .fieldNotFound .undefined
  | .object fields =>
    match fields.get? key with
    | some v => return v
    | none => fail .fieldNotFound .undefined
  | _ => fail (.argument "getField" "Not an object") .undefined

def getField (object : Value) (key : String) : Attempt Value := readField object key

/-- The field named by a value, which must be a text. -/
def getFieldBy (object key : Value) : Attempt Value := do
  let name ← require Payload.text? key "getField" "Field name must be a string" (return .undefined)
  readField object name

/-- The value of a field; a miss gives undefined without a report. -/
def getFieldSafe (object : Value) (key : String) : Attempt Value :=
  tryCatch (readField object key) fun _ => return .undefined

def hasField (object : Value) (key : String) : Attempt Value := do
  match ← payloadOf object with
  | .extension e => return .bool (← virtualProperty? object e key).isSome
  | .object fields => return .bool (fields.contains key)
  | _ => return .bool false

/-! ## Writing fields -/

/-- The fields of a plain object, or a failure. -/
def fieldsArg (object : Value) (operation : String) (fallback : Value) : Attempt (Table Value) :=
  require Payload.object? object operation "Not an object" (return fallback)

/-- Writes a field in place. Writing undefined removes it. -/
def setField (object : Value) (key : String) (v : Value) : Attempt Value := do
  let fields ← fieldsArg object "setField" .undefined
  let threshold := (← read).hashThreshold
  let removes := (← payloadOf v).isUndefined
  let written := if removes then (fields.erase key).2 else (fields.insert threshold key v).2
  writePayload object (.object written)
  return v

/-- Removes a field in place and tells whether it was there. -/
def deleteField (object : Value) (key : String) : Attempt Value := do
  let fields ← fieldsArg object "deleteField" (.bool false)
  let (previous, fields) := fields.erase key
  writePayload object (.object fields)
  return .bool previous.isSome

/-! ## Listing entries -/

/-- The entries of a plain object, or a failure that leaves a typed null. -/
def entriesArg (object : Value) (operation : String) : Attempt (List (String × Value)) := do
  let fields ← require Payload.object? object operation "requires object" (nullOf .object)
  return fields.toList

def keys (object : Value) : Attempt Value := do
  let entries ← entriesArg object "keys"
  ofList (← entries.mapM fun (key, _) => ofText key)

def values (object : Value) : Attempt Value := do
  let entries ← entriesArg object "values"
  ofList (entries.map (·.2))

/-- The pairs `[key, value]`. -/
def entries (object : Value) : Attempt Value := do
  let entries ← entriesArg object "entries"
  ofList (← entries.mapM fun (key, v) => do ofList [← ofText key, v])

/-! ## Combining objects -/

/-- What one side gives to a merge: null and undefined give nothing. -/
def mergeSide (side : Value) : Attempt (List (String × Value)) := do
  let p ← payloadOf side
  if p.isNull || p.isUndefined then return [] else entriesArg side "merge"

/-- A new object with the entries of `left` and then of `right`, whose values win. -/
def merge (left right : Value) : Attempt Value := do
  let first ← mergeSide left
  let second ← mergeSide right
  ofEntries (first ++ second)

/-- A new container with the same elements; what is no container is answered as it is. -/
def shallowClone (v : Value) : HeapM Value := do
  match ← payloadOf v with
  | .array items => ofArray items
  | .object fields => ofTable fields
  | .extension e => ofExtension e
  | _ => return v

/-- The entries of `target` overridden and extended by those of `source`. Where one side is no plain
object the other is copied. -/
def spreadObject (target source : Value) : Attempt Value := do
  match (← payloadOf target).object?, (← payloadOf source).object? with
  | some left, some right =>
    ofTable (left.insertAll (← read).hashThreshold right.toList)
  | some _, none => shallowClone target
  | none, _ => shallowClone source

end ValueMachine.Value
