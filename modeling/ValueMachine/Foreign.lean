import ValueMachine.Builtin.Behaviour
import ValueMachine.Value.Functions

/-!
# Entry points for compiled code

Compiled code hands over values that may be missing, texts as bytes up to a NUL, and numbers for
kinds, flags and places in the list of builtins. What it hands over is put in order here, and then
the operations of the library are used.
-/

namespace ValueMachine.Foreign

/-- A value as compiled code hands it over. -/
abbrev Argument := Option Value

/-- A missing value is undefined. -/
def Argument.value (a : Argument) : Value := a.getD .undefined

/-- Bytes that end at a NUL, if there are any. -/
abbrev Key := Option (List UInt8)

/-- The bytes before the first NUL. -/
def textBytes (bytes : List UInt8) : List UInt8 := bytes.takeWhile (· ≠ 0)

/-- The text of a key, if it has one and it is well-formed. -/
def Key.text? (key : Key) : Option String :=
  key.bind fun bytes => Text.Utf8.decode? (textBytes bytes)

/-! ## Making values -/

/-- Null for the kind with a number, plain null if there is no such kind. -/
def nullOfTag (tag : Int) : HeapM Value := Value.nullOf ((Kind.ofTag? tag).getD .null)

/-- Text that is part of the program; ill-formed text is copied. -/
def staticText (key : Key) : HeapM Value := do
  match key, key.text? with
  | none, _ => Value.ofText ""
  | _, some content => Value.ofStaticText content
  | some bytes, none => Value.ofText (Text.Utf8.decodeLossy (textBytes bytes))

/-- The text of the first `length` bytes. -/
def copiedText (bytes : Option (List UInt8)) (length : Nat) : HeapM Value :=
  Value.ofText (Text.Utf8.decodeLossy ((bytes.getD []).take length))

/-- The array of the first `count` values. -/
def array (items : Option (List Argument)) (count : Nat) : HeapM Value :=
  Value.ofList (((items.getD []).take count).map Argument.value)

/-- The object of keys and values; those whose key has no text are left out. -/
def object (keys : Option (List Key)) (values : List Argument) : HeapM Value :=
  Value.ofEntries (((keys.getD []).zip values).filterMap fun (key, value) =>
    key.text?.map fun name => (name, value.value))

/-- The flag for capture by reference. -/
def referenceFlag : Nat := 1

/-- The flag for a body that takes its receiver. -/
def methodFlag : Nat := 2

def function (index paramCount : Nat) (captured : List Argument) (flags : Nat) : HeapM Value :=
  Value.makeFunction (.foreign index) paramCount (flags / methodFlag % 2 = 1)
    (if flags / referenceFlag % 2 = 1 then .byReference else .byValue)
    (captured.map Argument.value)

/-! ## Fields by key -/

/-- An operation on a field whose name must be a text. -/
def onField (operation : String) (fallback : Value) (key : Key)
    (onName : String → Attempt Value) : Attempt Value :=
  match key.text? with
  | some name => onName name
  | none => fail (.argument operation "Field name must be a string") fallback

def getField (o : Value) (key : Key) : Attempt Value :=
  onField "getField" .undefined key (Value.getField o)

/-- Unlike the other operations, this one takes a key without a text as a miss. -/
def getFieldSafe (o : Value) (key : Key) : Attempt Value :=
  match key.text? with
  | some name => Value.getFieldSafe o name
  | none => return .undefined

def setField (o : Value) (key : Key) (v : Value) : Attempt Value :=
  onField "setField" .undefined key fun name => Value.setField o name v

def deleteField (o : Value) (key : Key) : Attempt Value :=
  onField "deleteField" (.bool false) key (Value.deleteField o)

def getMethod (o : Value) (key : Key) : Attempt Value :=
  onField "getField" .undefined key (Value.getMethod o)

/-! ## Builtins, status, texts -/

/-- The place of a builtin, or minus one. -/
def builtinIndex (key : Key) : Int :=
  match key.text?.bind Builtin.indexOf? with
  | some index => index
  | none => -1

/-- Runs the builtin at a place; there must be one. -/
def callBuiltin (call : Caller) (index : Nat) (args : List Value) : Run Value :=
  match Builtin.all[index]? with
  | some b => b.run call args
  | none => fatal ("unknown builtin index " ++ toString index)

/-- Publishes a status by its number; a message without a text is empty. -/
def publish (code : Int) (message : Key) : Run Unit :=
  setStatus ⟨.ofNumber code, message.text?.getD ""⟩

def stop {α : Type} (message : Key) : Run α := fatal (message.text?.getD "unknown error")

/-- The bytes of a text. -/
def textData? (v : Value) : HeapM (Option (List UInt8)) :=
  return (← payloadOf v).text?.map Text.Utf8.encode

end ValueMachine.Foreign
