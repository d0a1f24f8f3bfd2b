import ValueMachine.Value.Indexing

/-!
# Functions

Making functions and binding them. A function has at most one receiver and keeps the first.
-/

namespace ValueMachine.Value

/-- What a function holds for a captured variable: under capture by reference, a box. -/
def captureOf (mode : CaptureMode) (v : Value) : HeapM Capture := do
  if mode = .byReference && !(← payloadOf v).isBox then return .strong (← ofBox v)
  else return .strong v

/-- A function without a receiver. -/
def makeFunction (entry : EntryPoint) (paramCount : Nat) (needsReceiver : Bool) (mode : CaptureMode)
    (captured : List Value) : HeapM Value := do
  let captured ← captured.mapM (captureOf mode)
  ofClosure ⟨entry, paramCount, needsReceiver, mode, captured, none⟩

/-- A builtin as a function value. -/
def ofBuiltin (b : Builtin) : HeapM Value := makeFunction (.builtin b) b.arity false .byValue []

/-- A capture as a copy of the function holds it: the copy keeps its source alive. -/
def captureForCopy (source : Value) : Capture → Capture
  | .self owner => if owner = source then .strong source else .self owner
  | capture => capture

/-- The function bound to a receiver. A function that has one is answered as it is, and so is every
value that is no function. -/
def bindReceiver (function receiver : Value) : HeapM Value := do
  match (← payloadOf function).closure? with
  | some c =>
    if c.receiver.isSome then return function
    else
      let captured := c.captured.map (captureForCopy function)
      ofClosure { c with captured, receiver := some receiver }
  | none => return function

/-- Makes a capture the function itself, and tells whether there is such a capture. -/
def bindSelfCapture (function : Value) (slot : Nat) : HeapM Bool := do
  match (← payloadOf function).closure? with
  | some c =>
    if slot < c.captured.length then
      writePayload function (.function { c with captured := c.captured.set slot (.self function) })
      return true
    else return false
  | none => return false

/-- Writes into a box, and tells whether the value is one. -/
def writeBox (box content : Value) : HeapM Bool := do
  if (← payloadOf box).isBox then
    writePayload box (.box content)
    return true
  else return false

/-- The field of an object for a call: a function comes bound to the object. -/
def getMethod (object : Value) (key : String) : Attempt Value := do
  bindReceiver (← getField object key) object

/-- The element at a key for a call: a function comes bound to the container. -/
def getMethodByIndex (object key : Value) : Attempt Value := do
  bindReceiver (← index object key) object

end ValueMachine.Value
