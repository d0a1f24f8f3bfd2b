import ValueMachine.Config
import ValueMachine.Heap
import ValueMachine.Status

/-!
# Operations on the heap

Operations run under a configuration and may allocate and write cells. Those that can fail throw a
`Failure`: the status to leave behind and the value that stands in for the result. They have no
access to the status itself, so what they do cannot depend on it.
-/

namespace ValueMachine

/-- A computation on the heap. -/
abbrev HeapM := ReaderT Config (StateM Heap)

structure Failure where
  status : Status
  fallback : Value
  deriving DecidableEq

/-- A computation on the heap that may fail. -/
abbrev Attempt := ExceptT Failure HeapM

/-! ## Making values -/

namespace Value

def alloc (c : Cell) : HeapM Value := modifyGet fun h => h.alloc c

def ofPayload (p : Payload) : HeapM Value := alloc (.ofPayload p)

def ofNumber (x : Float) : HeapM Value :=
  match ofSmall? x with
  | some v => pure v
  | none => ofPayload (.number x)

def ofNat (n : Nat) : HeapM Value := ofNumber (Number.ofNat n)

def ofText (content : String) : HeapM Value := ofPayload (.text false content)

/-- A text of characters. -/
def ofChars (content : List Char) : HeapM Value := ofText (.ofList content)

/-- Text that is part of the program. -/
def ofStaticText (content : String) : HeapM Value :=
  alloc ⟨.string, .staticText, .text true content⟩

def ofArray (items : Array Value) : HeapM Value := ofPayload (.array items)

def ofList (items : List Value) : HeapM Value := ofArray items.toArray

def ofTable (fields : Table Value) : HeapM Value := ofPayload (.object fields)

/-- The object of the given entries; of entries with one key, the last gives the value. -/
def ofEntries (entries : List (String × Value)) : HeapM Value := do
  ofTable (.ofList (← read).hashThreshold entries)

def ofExtension (e : Extension) : HeapM Value := ofPayload (.extension e)

def ofBytes (bytes : Array UInt8) : HeapM Value := ofExtension (.buffer bytes)

def ofClosure (c : Closure) : HeapM Value := ofPayload (.function c)

/-- A box declared with the declared kind of its content. -/
def ofBox (content : Value) : HeapM Value := do
  alloc ⟨(← get).declaredKind content, .counted, .box content⟩

/-- Null that remembers the kind of its variable. -/
def nullOf (kind : Kind) : HeapM Value :=
  if kind = .null then pure .null else alloc ⟨kind, .counted, .null⟩

/-- Null with the declared kind of another value. -/
def nullLike (previous : Value) : HeapM Value := do
  nullOf ((← get).declaredKind previous)

end Value

/-! ## Reading and failing -/

/-- Reads something off the heap. -/
def observe {α : Type} (f : Heap → α) : HeapM α := return f (← get)

def payloadOf (v : Value) : HeapM Payload := observe (·.payload v)

def writePayload (v : Value) (p : Payload) : HeapM Unit := modify (·.write v p)

/-- Fails with a value to fall back on. -/
def fail {α : Type} (fault : Fault) (fallback : Value) : Attempt α :=
  throw ⟨fault.status, fallback⟩

/-- Fails with a typed null to fall back on. -/
def failNull {α : Type} (fault : Fault) (kind : Kind) : Attempt α := do
  fail fault (← Value.nullOf kind)

/-- What a handle holds if it has the form that is asked for; a failure with the given fallback
otherwise. -/
def require {α : Type} (form : Payload → Option α) (v : Value) (operation requirement : String)
    (fallback : HeapM Value) : Attempt α := do
  match form (← payloadOf v) with
  | some content => return content
  | none => fail (.argument operation requirement) (← fallback)

/-- The text behind a handle, or a failure that leaves a typed null. -/
def textArg (v : Value) (operation label : String) (kind : Kind) : Attempt String :=
  require Payload.text? v operation (label ++ " must be a string") (Value.nullOf kind)

/-- The number behind a handle, or a failure that leaves a typed null. -/
def numberArg (v : Value) (operation label : String) (kind : Kind) : Attempt Float :=
  require Payload.number? v operation (label ++ " must be a number") (Value.nullOf kind)

/-- The elements behind a handle, or a failure that leaves a typed null. -/
def arrayArg (v : Value) (operation : String) (kind : Kind) : Attempt (Array Value) :=
  require Payload.array? v operation "requires array" (Value.nullOf kind)

end ValueMachine
