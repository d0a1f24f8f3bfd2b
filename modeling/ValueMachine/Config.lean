/-!
# Configuration

Limits and choices that a program runs under.
-/

namespace ValueMachine

/-- Whether printed text is coloured; `auto` colours what goes to a terminal. -/
inductive ColorMode where
  | auto
  | always
  | never
  deriving DecidableEq

structure Config where
  color : ColorMode
  /-- Nesting depth at which the printer cuts off. -/
  printMaxDepth : Nat
  /-- Nesting depth at which JSON is cut off or refused. -/
  jsonMaxDepth : Nat
  /-- Number of entries at which an object becomes hashed. -/
  hashThreshold : Nat
  /-- Most values that a body may be called with. -/
  maxCallArgs : Nat
  deriving DecidableEq

namespace Config

def standard : Config where
  color := .auto
  printMaxDepth := 64
  jsonMaxDepth := 256
  hashThreshold := 8
  maxCallArgs := 16

/-- Whether text for a stream is coloured. -/
def colors (c : Config) (isTerminal : Bool) : Bool :=
  match c.color with
  | .always => true
  | .never => false
  | .auto => isTerminal

end Config

end ValueMachine
