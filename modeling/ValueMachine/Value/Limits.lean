import ValueMachine.Machine
import ValueMachine.Value.Arrays

/-!
# Operations that may give up

A range may be too long for any memory, and an unchecked index may be wrong. Neither has a status to
leave.
-/

namespace ValueMachine.Value

/-- The least number of elements that no array can have. -/
def arrayLimit : Nat := Number.twoPow 60

/-- The numbers from `start` towards `stop`, the end left out. -/
def range (start stop step : Value) : Action Value := do
  let (first, last, width) ← rangeArgs start stop step
  let count := rangeCount first last width
  if count < arrayLimit then rangeOf first width count else ExceptT.lift giveUp

/-- The element at a position that the program has checked already. -/
def indexUnchecked (array : Value) (position : Nat) : Run Value := do
  match (← payloadOf array).array? with
  | some items =>
    match items[position]? with
    | some item => return item
    | none => giveUp
  | none => return .undefined

end ValueMachine.Value
