import ValueMachine.Number.Rounding
import ValueMachine.Operation

/-!
# Error objects
-/

namespace ValueMachine.Value

/-- An error object; the code is zero and the type `Error` unless they are given. -/
def makeError (message code errorType : Value) : Attempt Value := do
  let message ← textArg message "makeError" "message" .object
  let code := (← payloadOf code).number?.elim 0 Number.toInt32
  let p ← payloadOf errorType
  let errorType ←
    if p.isNull || p.isUndefined then pure "Error"
    else textArg errorType "makeError" "errorType" .object
  ofExtension (.error ⟨message, code, errorType⟩)

/-- An error object that describes a status. -/
def ofStatus (s : Status) : HeapM Value :=
  ofExtension (.error ⟨s.message, s.code.number, s.code.label⟩)

end ValueMachine.Value
