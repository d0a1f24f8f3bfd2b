import ValueMachine.Machine

/-!
# Calls

A function is called with its receiver if it takes one, then the arguments, then the captures.
Bodies get a way to make further calls; how deep calls may nest is a parameter, and what has
returned does not depend on it.
-/

namespace ValueMachine

/-- A way to call a function value. -/
abbrev Caller := Value → List Value → Run Value

/-- What a function does. No value stands for undefined. -/
abbrev Body := Caller → List Value → Run (Option Value)

/-- The bodies behind the entry points. -/
abbrev Code := EntryPoint → Body

namespace Closure

/-- All values that a body is called with. -/
def fullArgs (c : Closure) (isAlive : Value → Bool) (args : List Value) : List Value :=
  (if c.needsReceiver then c.receiver.toList else []) ++ args ++ c.captured.map (·.load isAlive)

end Closure

/-- Enters the body of a function, unless it would be called with too many values. The caller has the
function, so that it is there as long as its captures are read. -/
def enter (code : Code) (call : Caller) (function : Value) (c : Closure) (args : List Value) :
    Run Value := do
  let m ← get
  let full := c.fullArgs (m.heap.isAlive function) args
  let limit := m.config.maxCallArgs
  if limit < full.length then
    fatal ("call does not support " ++ toString full.length ++ " arguments (max "
      ++ toString limit ++ ")")
  else return (← code c.entry call full).getD .undefined

/-- Calls a function; at most `depth` calls are nested. Anything else gives undefined and a status,
while a call itself leaves the status to the body. -/
def callWithin (code : Code) : (depth : Nat) → Caller
  | 0, _, _ => throw .exhausted
  | depth + 1, function, args => do
    match (← payloadOf function).closure? with
    | some c => enter code (callWithin code depth) function c args
    | none =>
      setStatus Fault.notCallable.status
      return .undefined

end ValueMachine
