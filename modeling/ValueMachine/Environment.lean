/-!
# Environment variables

Variables in the order in which they were first set. Names are not empty, and neither names nor
values hold the character NUL; a name holds no equals sign.
-/

namespace ValueMachine

structure Environment where
  entries : List (String × String)

namespace Environment

def empty : Environment := ⟨[]⟩

def nul : Char := '\x00'

/-- The value of the first variable whose line `name=value` begins with the given name and an equals
sign. -/
def get? (e : Environment) (name : String) : Option String :=
  if name.isEmpty then none
  else e.entries.findSome? fun (key, value) =>
    let line := key.toList ++ '=' :: value.toList
    let start := name.toList ++ ['=']
    if start.isPrefixOf line then some (.ofList (line.drop start.length)) else none

/-- Whether a variable can have the given name and value. -/
def admits (name value : String) : Bool :=
  !name.isEmpty && !name.toList.contains '=' && !name.toList.contains nul &&
    !value.toList.contains nul

/-- Overwrites the variable with the given name in its place, or appends a new one. -/
def assign (name value : String) : List (String × String) → List (String × String)
  | [] => [(name, value)]
  | (key, old) :: rest =>
    if key = name then (key, value) :: rest else (key, old) :: assign name value rest

def set (e : Environment) (name value : String) : Environment := ⟨assign name value e.entries⟩

end Environment

end ValueMachine
