import ValueMachine.Builtin.Behaviour
import ValueMachine.Value.Functions

/-!
# Sample bodies

Small bodies such as compiled programs have, to try functions out with. Missing arguments are
undefined. The last four are foreign: they may answer with no value.
-/

namespace ValueMachine

inductive Routine where
  /-- All arguments as an array. -/
  | echo
  | first
  | last
  | noop
  | sub
  /-- Subtracts the first argument from the second. -/
  | rsub
  /-- Appends the first two arguments to the third, and subtracts them. -/
  | logSub
  /-- Subtracts the first elements of two arrays. -/
  | byFirst
  | nan
  /-- Leaves a status of its own. -/
  | failing
  /-- The field `name` of the first argument. -/
  | nameField
  /-- Adds one to the content of a box. -/
  | bump
  /-- The factorial of the first argument by means of the second, which is the function itself. -/
  | factorial
  /-- Calls the first argument with the others. -/
  | apply
  /-- Sets the field `n` of the first argument. -/
  | putN
  | foreignAdd
  | foreignNone
  | foreignEcho
  | foreignFirst
  deriving DecidableEq

namespace Routine

def all : List Routine :=
  [echo, first, last, noop, sub, rsub, logSub, byFirst, nan, failing, nameField, bump, factorial,
   apply, putN, foreignAdd, foreignNone, foreignEcho, foreignFirst]

def name : Routine → String
  | echo => "echo"
  | first => "first"
  | last => "last"
  | noop => "noop"
  | sub => "sub"
  | rsub => "rsub"
  | logSub => "log_sub"
  | byFirst => "by_first"
  | nan => "nan"
  | failing => "fail"
  | nameField => "name"
  | bump => "bump"
  | factorial => "fact"
  | apply => "apply"
  | putN => "put_n"
  | foreignAdd => "x_add"
  | foreignNone => "x_null"
  | foreignEcho => "x_echo"
  | foreignFirst => "x_first"

def ofName? (name : String) : Option Routine := all.find? (·.name == name)

def isForeign : Routine → Bool
  | foreignAdd => true
  | foreignNone => true
  | foreignEcho => true
  | foreignFirst => true
  | _ => false

/-- The entry point of a routine is its place in the list. -/
def entry (r : Routine) : EntryPoint :=
  if r.isForeign then .foreign (all.idxOf r) else .native (all.idxOf r)

/-- The first element of an array. -/
def headOf (v : Value) : HeapM Value :=
  return ((← payloadOf v).array?.bind (·[0]?)).getD .undefined

/-- Appends an element in place, if the target is an array. -/
def append (target item : Value) : HeapM Unit := do
  match (← payloadOf target).array? with
  | some items => writePayload target (.array (items.push item))
  | none => return ()

def body (r : Routine) (call : Caller) (args : List Value) : Run (Option Value) := do
  let x := args.getD 0 .undefined
  let y := args.getD 1 .undefined
  let z := args.getD 2 .undefined
  match r with
  | echo => return some (← Value.ofList args)
  | first => return some x
  | last => return some (args.getLast?.getD .undefined)
  | noop => return some .undefined
  | sub => return some (← Value.sub x y)
  | rsub => return some (← Value.sub y x)
  | logSub =>
    append z (← Value.ofList [x, y])
    return some (← Value.sub x y)
  | byFirst => return some (← Value.sub (← headOf x) (← headOf y))
  | nan => return some (← Value.ofNumber Number.nan)
  | failing =>
    setStatus ⟨.mathError, "boom"⟩
    return some (← Value.ofText "failed")
  | nameField => return some (← settle (Value.getField x "name"))
  | bump =>
    let next ← Value.add (← observe (·.unbox x)) (← Value.ofNat 1)
    let _ ← Value.writeBox x next
    return some next
  | factorial =>
    let n := (← payloadOf x).number?.getD 0.0
    if n ≤ 1.0 then return some (← Value.ofNat 1)
    let rest ← call y [← Value.ofNumber (n - 1.0)]
    return some (← Value.mul x rest)
  | apply => return some (← call x (args.drop 1))
  | putN => return some (← settle (Value.setField x "n" y))
  | foreignAdd => return some (← Value.add x y)
  | foreignNone => return none
  | foreignEcho => return some (← Value.ofList args)
  | foreignFirst => return args.head?

/-- The code of a program whose bodies are the builtins and the routines. -/
def code : Code
  | .builtin b => b.body
  | .native index => (all.getD index noop).body
  | .foreign index => (all.getD index noop).body

end Routine

end ValueMachine
