/-!
# Fatal reports

What is written when a program is stopped because it cannot go on.
-/

namespace ValueMachine

/-- Name and version of the language. -/
def productName : String := "FLYUX"

def productVersion : String := "0.1"

/-- A text between an escape sequence and a reset. -/
def highlighted (code content : String) : String := "\x1b[" ++ code ++ "m" ++ content ++ "\x1b[0m"

/-- Product and platform, then the message, then the time. -/
def fatalReport (platform message time : String) (colors : Bool) : String :=
  let product :=
    if colors then "\x1b[38;5;27m" ++ productName ++ highlighted "38;5;39" (" " ++ productVersion)
    else productName ++ " " ++ productVersion
  let mark := if colors then highlighted "31" "[Err]" else "[Err]"
  let ending := "Execution Terminated."
  "\n" ++ product ++ " (" ++ platform ++ ")\n" ++
    mark ++ " Fatal Error: " ++ message ++ "\n" ++
    (if colors then highlighted "33" ending else ending) ++ "  [" ++ time ++ "]\n"

end ValueMachine
