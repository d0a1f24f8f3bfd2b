import ValueMachine.Machine
import ValueMachine.Printing.Template
import ValueMachine.Text.Lines

/-!
# Console builtins

Printing values and reading lines. The console is no terminal.
-/

namespace ValueMachine.Console

/-- Whether what is printed is coloured. -/
def colorsEnabled : Run Bool := return (← get).config.colors false

/-- Prints values with blanks between them. -/
def printValues (vs : List Value) (newline : Bool) : Run Unit := do
  let m ← get
  let line := m.heap.renderLine m.config.printMaxDepth (m.config.colors false) vs
  printOut (line ++ if newline then ['\n'] else [])

/-- Prints a template filled with arguments; gives up if that takes too long a text. -/
def printf (template : Value) (args : List Value) : Action Value := do
  let template ← (require Payload.text? template "printf" "format must be a string"
    (return .undefined) : Attempt String)
  let m ← getThe Machine
  match m.heap.format? m.config.printMaxDepth template.toList args with
  | some content =>
    printOut content
    return .undefined
  | none => ExceptT.lift giveUp

/-- The text that is shown before a line is read: that of the prompt, if it is a text. -/
def promptText (prompt : Value) : HeapM String := return (← payloadOf prompt).text?.getD ""

/-- The value of a line that has been read. -/
def lineValue : Text.LineRead → Attempt Value
  | .line content => Value.ofText content
  | .endOfInput => failNull .endOfInput .string
  | .illFormed => failNull .unreadableInput .string

/-- Reads one line off a stream and answers the rest of the stream. -/
def readLineFrom (stream : List UInt8) : Run (Value × List UInt8) := do
  let (line, rest) := Text.readLine stream
  return (← settle (lineValue line), rest)

/-- Shows a prompt and reads one line off the console. -/
def input (prompt : Value) : Run Value := do
  printOut (← promptText prompt).toList
  let (v, rest) ← readLineFrom (← get).input
  modify ({ · with input := rest })
  return v

end ValueMachine.Console
