import ValueMachine.Builtin.Name
import ValueMachine.Kind
import ValueMachine.Table.Basic

/-!
# Values

A value is a handle. The constants `undefined`, `null`, the booleans and small integers are handles
of their own; every other handle is the address of a cell. Two handles are the same value exactly
when they are equal, and cells change in place, so a change shows through every handle to the cell.
-/

namespace ValueMachine

/-- A handle. -/
inductive Value where
  | undefined
  | null
  | bool (b : Bool)
  /-- A small integer that needs no cell. -/
  | small (n : Int)
  | cell (address : Nat)
  deriving DecidableEq

/-- The integers that have handles of their own. -/
def smallest : Int := -128

def largest : Int := 256

/-- How long a cell lives. -/
inductive Lifetime where
  | counted
  /-- The text in the cell is part of the program. -/
  | staticText
  | immortal
  deriving DecidableEq

/-- The name of a lifetime in diagnostics. -/
def Lifetime.label : Lifetime → String
  | counted => "None"
  | staticText => "StaticConstant"
  | immortal => "Immortal"

/-! ## Functions -/

/-- Where the body of a function is found. Foreign bodies may answer with no value. -/
inductive EntryPoint where
  | builtin (b : Builtin)
  | native (index : Nat)
  | foreign (index : Nat)
  deriving DecidableEq

/-- How a function holds the variables around it. -/
inductive CaptureMode where
  | byValue
  /-- Every capture is a box shared with the scope around the function. -/
  | byReference
  deriving DecidableEq

/-- One captured variable. -/
inductive Capture where
  | strong (value : Value)
  /-- The function that holds this capture, which does not keep itself alive. -/
  | self (owner : Value)
  deriving DecidableEq

namespace Capture

/-- The value of a capture. One that is held weakly has none once it is gone. -/
def value? (isAlive : Value → Bool) : Capture → Option Value
  | strong value => some value
  | self owner => if isAlive owner then some owner else none

/-- What a body gets for a capture. -/
def load (isAlive : Value → Bool) (k : Capture) : Value := (k.value? isAlive).getD .undefined

end Capture

structure Closure where
  entry : EntryPoint
  paramCount : Nat
  /-- Whether the body takes the bound receiver as its first argument. -/
  needsReceiver : Bool
  mode : CaptureMode
  captured : List Capture
  receiver : Option Value
  deriving DecidableEq

namespace Closure

/-- The value of a capture, if there are that many and it is not gone. -/
def capture? (c : Closure) (isAlive : Value → Bool) (slot : Nat) : Option Value :=
  (c.captured[slot]?).bind (·.value? isAlive)

/-- Whether a capture is the function itself, held weakly. -/
def isSelfSlot (c : Closure) (slot : Nat) : Bool :=
  match c.captured[slot]? with
  | some (.self _) => true
  | _ => false

end Closure

/-! ## Objects with a payload of their own -/

structure FileHandle where
  path : String
  mode : String
  position : Nat
  isOpen : Bool
  deriving DecidableEq

structure ErrorObject where
  message : String
  code : Int
  errorType : String
  deriving DecidableEq

inductive Extension where
  | buffer (bytes : Array UInt8)
  | fileHandle (file : FileHandle)
  | error (error : ErrorObject)
  deriving DecidableEq

namespace Extension

def subKind : Extension → SubKind
  | buffer _ => .buffer
  | fileHandle _ => .fileHandle
  | error _ => .error

def typeName (e : Extension) : String := e.subKind.typeName

def bytes? : Extension → Option (Array UInt8)
  | buffer bytes => some bytes
  | _ => none

end Extension

/-! ## Cells -/

inductive Payload where
  | undefined
  | null
  | bool (b : Bool)
  | number (x : Float)
  | text (isStatic : Bool) (content : String)
  | array (items : Array Value)
  | object (fields : Table Value)
  | extension (e : Extension)
  | function (c : Closure)
  /-- A variable that functions share. -/
  | box (content : Value)

namespace Payload

/-- The kind of a payload; a box has the kind of its content, which is found through the heap. -/
def ownKind : Payload → Kind
  | undefined => .undefined
  | null => .null
  | bool _ => .bool
  | number _ => .number
  | text .. => .string
  | array _ => .array
  | object _ => .object
  | extension _ => .object
  | function _ => .function
  | box _ => .undefined

def isNull : Payload → Bool
  | null => true
  | _ => false

def isUndefined : Payload → Bool
  | undefined => true
  | _ => false

def isFunction : Payload → Bool
  | function _ => true
  | _ => false

def isBox : Payload → Bool
  | box _ => true
  | _ => false

def number? : Payload → Option Float
  | number x => some x
  | _ => none

def text? : Payload → Option String
  | text _ content => some content
  | _ => none

def array? : Payload → Option (Array Value)
  | array items => some items
  | _ => none

def object? : Payload → Option (Table Value)
  | object fields => some fields
  | _ => none

def extension? : Payload → Option Extension
  | extension e => some e
  | _ => none

def closure? : Payload → Option Closure
  | function c => some c
  | _ => none

end Payload

structure Cell where
  /-- The kind of the variable that the value was made for. -/
  declared : Kind
  lifetime : Lifetime
  payload : Payload

namespace Cell

/-- A cell declared with the kind of its payload. -/
def ofPayload (payload : Payload) : Cell := ⟨payload.ownKind, .counted, payload⟩

def immortal (payload : Payload) : Cell := ⟨payload.ownKind, .immortal, payload⟩

end Cell

end ValueMachine
