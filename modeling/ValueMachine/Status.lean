/-!
# Status

Operations that can fail leave a code and a message behind; a success leaves `ok` without a message.
`Fault` lists why the library's own operations fail, with the code and the message of each cause.

Results:
* `Fault.code_ne_ok`, `Fault.message_ne_empty`: a cause is never mistaken for a success.
-/

namespace ValueMachine

inductive StatusCode where
  | ok
  | error
  | endOfInput
  | typeError
  | outOfBounds
  | ioError
  | mathError
  deriving DecidableEq

namespace StatusCode

def number : StatusCode → Nat
  | ok => 0
  | error => 1
  | endOfInput => 2
  | typeError => 3
  | outOfBounds => 4
  | ioError => 5
  | mathError => 6

/-- Unknown numbers stand for a plain error. -/
def ofNumber : Int → StatusCode
  | 0 => ok
  | 2 => endOfInput
  | 3 => typeError
  | 4 => outOfBounds
  | 5 => ioError
  | 6 => mathError
  | _ => error

theorem ofNumber_number (c : StatusCode) : ofNumber c.number = c := by cases c <;> rfl

def label : StatusCode → String
  | ok => "Ok"
  | error => "Error"
  | endOfInput => "EndOfInput"
  | typeError => "TypeError"
  | outOfBounds => "OutOfBounds"
  | ioError => "IoError"
  | mathError => "MathError"

end StatusCode

structure Status where
  code : StatusCode
  message : String
  deriving DecidableEq

namespace Status

def ok : Status := ⟨.ok, ""⟩

def isOk (s : Status) : Bool := s.code == .ok

/-- The label, and the message if there is one. -/
def text (s : Status) : String :=
  if s.message.isEmpty then s.code.label else s.code.label ++ ": " ++ s.message

end Status

/-- Why an operation fails. -/
inductive Fault where
  /-- An argument of a named operation lacks the form it needs. -/
  | argument (operation requirement : String)
  | fieldNotFound
  | keyNotFound
  | nullIndexed
  | notIndexable
  | notAssignable
  | notCallable
  | arrayBounds
  | bufferBounds
  | characterBounds
  | elementBounds
  | emptyArray (operation : String)
  | zeroStep
  | negativeRoot
  | endOfInput
  | unreadableInput
  /-- The outside world refuses a named operation. -/
  | refused (operation problem : String)
  deriving DecidableEq

namespace Fault

/-- The operation's name in brackets before what went wrong. -/
def named (operation problem : String) : String := "(" ++ operation ++ ") " ++ problem

def code : Fault → StatusCode
  | argument .. => .typeError
  | fieldNotFound => .typeError
  | keyNotFound => .typeError
  | nullIndexed => .typeError
  | notIndexable => .typeError
  | notAssignable => .typeError
  | notCallable => .typeError
  | arrayBounds => .outOfBounds
  | bufferBounds => .outOfBounds
  | characterBounds => .outOfBounds
  | elementBounds => .outOfBounds
  | emptyArray _ => .outOfBounds
  | zeroStep => .error
  | negativeRoot => .mathError
  | endOfInput => .endOfInput
  | unreadableInput => .ioError
  | refused .. => .ioError

def message : Fault → String
  | argument operation requirement => named operation requirement
  | fieldNotFound => named "getField" "Field not found"
  | keyNotFound => "Object key not found"
  | nullIndexed => "Attempt to index null value"
  | notIndexable => "Invalid index operation"
  | notAssignable => "Invalid index assignment"
  | notCallable => named "call" "value is not a function"
  | arrayBounds => "Array index out of bounds"
  | bufferBounds => "Buffer index out of bounds"
  | characterBounds => named "charAt" "index out of range"
  | elementBounds => named "charAt" "array index out of range"
  | emptyArray operation => named operation ("cannot " ++ operation ++ " from empty array")
  | zeroStep => named "range" "step cannot be 0"
  | negativeRoot => named "sqrt" "negative number"
  | endOfInput => named "input" "End of input (EOF)"
  | unreadableInput => named "input" "Input read error"
  | refused operation problem => named operation problem

def status (f : Fault) : Status := ⟨f.code, f.message⟩

theorem code_ne_ok (f : Fault) : f.code ≠ .ok := by cases f <;> simp [code]

theorem named_ne_empty (operation problem : String) : named operation problem ≠ "" := by
  intro h
  have := congrArg String.length h
  simp [named, String.length_append] at this

theorem message_ne_empty (f : Fault) : f.message ≠ "" := by
  cases f <;> first | exact named_ne_empty _ _ | decide

end Fault

end ValueMachine
