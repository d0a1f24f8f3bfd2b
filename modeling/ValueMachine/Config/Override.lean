import ValueMachine.Config.Reader
import ValueMachine.Environment

/-!
# Overrides from the environment

Two variables decide on colours: one that only needs to be set, and one that names a mode and has
the last word. Other values of the second are ignored.
-/

namespace ValueMachine.Config

/-- Turns colours off by being set. -/
def noColorVariable : String := "NO_COLOR"

/-- Names a colour mode, in any letter case. -/
def colorVariable : String := "FLYUX_COLOR"

/-- The mode that the environment asks for, if it asks for one. -/
def colorFrom? (e : Environment) : Option ColorMode :=
  let named := (e.get? colorVariable).bind fun name => colorOfName? name.toLower
  named.or (if (e.get? noColorVariable).isSome then some .never else none)

def withEnvironment (e : Environment) (c : Config) : Config :=
  { c with color := (colorFrom? e).getD c.color }

/-- The standard configuration with what the environment asks for. -/
def ofEnvironment (e : Environment) : Config := standard.withEnvironment e

end ValueMachine.Config
