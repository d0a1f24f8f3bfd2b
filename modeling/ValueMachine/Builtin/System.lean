import ValueMachine.Machine
import ValueMachine.Value.Coercion
import ValueMachine.Value.Errors

/-!
# System builtins

Time, environment, the end of the program and the status of the last operation. Those that look at
the status leave it as it is.
-/

namespace ValueMachine.System

/-! ## Time and chance -/

/-- Milliseconds since the beginning of 1970. -/
def now : Action Value := do
  Value.ofNumber (Number.ofNat (← getThe Machine).host.microseconds / 1000.0)

/-- Whole seconds since the beginning of 1970. -/
def time : Action Value := do Value.ofNat ((← getThe Machine).host.microseconds / 1000000)

def date : Action Value := do Value.ofText (← getThe Machine).host.localTime

def random : Action Value := do Value.ofNumber (← getThe Machine).host.random

/-- Accepts a time to wait; waiting changes nothing that a program can see. -/
def sleep (seconds : Value) : Attempt Value := do
  let x ← numberArg seconds "sleep" "argument" .null
  if x < 0.0 || x.isNaN then fail (.argument "sleep" "argument must be non-negative") .null
  else return .null

/-! ## Environment -/

def getEnv (name : Value) : AttemptOn Environment Value := do
  let name ← textArg name "getEnv" "argument" .string
  match (← get).get? name with
  | some content => Value.ofText content
  | none => Value.nullOf .string

def setEnv (name content : Value) : AttemptOn Environment Value := do
  let name ← require Payload.text? name "setEnv" "first argument must be a string"
    (return .bool false)
  let content ← require Payload.text? content "setEnv" "second argument must be a string"
    (return .bool false)
  if Environment.admits name content then
    modify (·.set name content)
    return .bool true
  else fail (.refused "setEnv" "failed to set environment variable") (.bool false)

/-- All variables as an object. -/
def environment : AttemptOn Environment Value := do
  let entries ← (← get).entries.mapM fun (name, content) => do
    return (name, ← Value.ofText content)
  Value.ofEntries entries

/-! ## Ending the program -/

/-- Ends the program; a code that is no number is zero. -/
def exit (code : Value) : Run Value := do
  throw (.exit ((← payloadOf code).number?.elim 0 Number.toInt32) "")

/-- Stops the program unless the condition holds. -/
def assert (condition message : Value) : Run Value := do
  if ← observe (·.isTruthy condition) then return .bool true
  else match (← payloadOf message).text? with
    | some reason => fatal ("Assertion failed: " ++ reason)
    | none => fatal "Assertion failed"

/-! ## Status -/

def isOk : Run Value := return .bool (← get).status.isOk

def lastError : Run Value := do Value.ofText (← get).status.message

def lastStatus : Run Value := do Value.ofNat (← get).status.code.number

def clearError : Run Value := do
  setStatus .ok
  return .null

/-- An error object that describes the status. -/
def errorObject : Run Value := do Value.ofStatus (← get).status

end ValueMachine.System
