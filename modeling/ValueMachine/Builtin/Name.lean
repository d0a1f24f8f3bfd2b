/-!
# The builtin functions

Programs call builtins by name or by their place in the list `Builtin.all`; the arity is what a
builtin reports as a function value, and any number of arguments may be given.
-/

namespace ValueMachine

inductive Builtin where
  | print
  | println
  | printf
  | input
  | len
  | typeOf
  | toNum
  | toStr
  | toBl
  | toInt
  | isNum
  | isStr
  | isBl
  | isArr
  | isObj
  | isNull
  | isUndef
  | isFunc
  | push
  | pop
  | shift
  | unshift
  | slice
  | concat
  | reverse
  | indexOf
  | includes
  | sort
  | range
  | charAt
  | substr
  | replace
  | split
  | join
  | trim
  | upper
  | lower
  | startsWith
  | endsWith
  | contains
  | keys
  | values
  | entries
  | hasField
  | deleteField
  | merge
  | clone
  | deepClone
  | toJSON
  | parseJSON
  | abs
  | floor
  | ceil
  | round
  | sqrt
  | pow
  | min
  | max
  | clamp
  | isNaN
  | isFinite
  | random
  | now
  | time
  | date
  | sleep
  | exit
  | getEnv
  | setEnv
  | environment
  | assert
  | isOk
  | lastError
  | lastStatus
  | clearError
  | makeError
  | errorObject
  | readFile
  | writeFile
  | appendFile
  | fileExists
  | dirExists
  | deleteFile
  | getFileSize
  | readBytes
  | writeBytes
  | readLines
  | renameFile
  | copyFile
  | createDir
  | removeDir
  | listDir
  | openFile
  | closeFile
  deriving DecidableEq

namespace Builtin

/-- All builtins; their places are part of the interface of compiled code. -/
def all : List Builtin :=
  [.print, .println, .printf, .input, .len, .typeOf, .toNum, .toStr, .toBl, .toInt, .isNum,
   .isStr, .isBl, .isArr, .isObj, .isNull, .isUndef, .isFunc, .push, .pop, .shift, .unshift,
   .slice, .concat, .reverse, .indexOf, .includes, .sort, .range, .charAt, .substr, .replace,
   .split, .join, .trim, .upper, .lower, .startsWith, .endsWith, .contains, .keys, .values,
   .entries, .hasField, .deleteField, .merge, .clone, .deepClone, .toJSON, .parseJSON, .abs,
   .floor, .ceil, .round, .sqrt, .pow, .min, .max, .clamp, .isNaN, .isFinite, .random, .now,
   .time, .date, .sleep, .exit, .getEnv, .setEnv, .environment, .assert, .isOk, .lastError,
   .lastStatus, .clearError, .makeError, .errorObject, .readFile, .writeFile, .appendFile,
   .fileExists, .dirExists, .deleteFile, .getFileSize, .readBytes, .writeBytes, .readLines,
   .renameFile, .copyFile, .createDir, .removeDir, .listDir, .openFile, .closeFile]

/-- The name that programs call a builtin by. -/
def name : Builtin → String
  | print => "print"
  | println => "println"
  | printf => "printf"
  | input => "input"
  | len => "len"
  | typeOf => "typeOf"
  | toNum => "toNum"
  | toStr => "toStr"
  | toBl => "toBl"
  | toInt => "toInt"
  | isNum => "isNum"
  | isStr => "isStr"
  | isBl => "isBl"
  | isArr => "isArr"
  | isObj => "isObj"
  | isNull => "isNull"
  | isUndef => "isUndef"
  | isFunc => "isFunc"
  | push => "push"
  | pop => "pop"
  | shift => "shift"
  | unshift => "unshift"
  | slice => "slice"
  | concat => "concat"
  | reverse => "reverse"
  | indexOf => "indexOf"
  | includes => "includes"
  | sort => "sort"
  | range => "range"
  | charAt => "charAt"
  | substr => "substr"
  | replace => "replace"
  | split => "split"
  | join => "join"
  | trim => "trim"
  | upper => "upper"
  | lower => "lower"
  | startsWith => "startsWith"
  | endsWith => "endsWith"
  | contains => "contains"
  | keys => "keys"
  | values => "values"
  | entries => "entries"
  | hasField => "hasField"
  | deleteField => "deleteField"
  | merge => "merge"
  | clone => "clone"
  | deepClone => "deepClone"
  | toJSON => "toJSON"
  | parseJSON => "parseJSON"
  | abs => "abs"
  | floor => "floor"
  | ceil => "ceil"
  | round => "round"
  | sqrt => "sqrt"
  | pow => "pow"
  | min => "min"
  | max => "max"
  | clamp => "clamp"
  | isNaN => "isNaN"
  | isFinite => "isFinite"
  | random => "random"
  | now => "now"
  | time => "time"
  | date => "date"
  | sleep => "sleep"
  | exit => "exit"
  | getEnv => "getEnv"
  | setEnv => "setEnv"
  | environment => "environment"
  | assert => "assert"
  | isOk => "isOk"
  | lastError => "lastError"
  | lastStatus => "lastStatus"
  | clearError => "clearError"
  | makeError => "makeError"
  | errorObject => "errorObject"
  | readFile => "readFile"
  | writeFile => "writeFile"
  | appendFile => "appendFile"
  | fileExists => "fileExists"
  | dirExists => "dirExists"
  | deleteFile => "deleteFile"
  | getFileSize => "getFileSize"
  | readBytes => "readBytes"
  | writeBytes => "writeBytes"
  | readLines => "readLines"
  | renameFile => "renameFile"
  | copyFile => "copyFile"
  | createDir => "createDir"
  | removeDir => "removeDir"
  | listDir => "listDir"
  | openFile => "openFile"
  | closeFile => "closeFile"

/-- The parameter count that a builtin reports. -/
def arity : Builtin → Nat
  | print => 0
  | println => 0
  | printf => 1
  | input => 1
  | len => 1
  | typeOf => 1
  | toNum => 1
  | toStr => 1
  | toBl => 1
  | toInt => 1
  | isNum => 1
  | isStr => 1
  | isBl => 1
  | isArr => 1
  | isObj => 1
  | isNull => 1
  | isUndef => 1
  | isFunc => 1
  | push => 2
  | pop => 1
  | shift => 1
  | unshift => 2
  | slice => 3
  | concat => 2
  | reverse => 1
  | indexOf => 2
  | includes => 2
  | sort => 2
  | range => 3
  | charAt => 2
  | substr => 3
  | replace => 3
  | split => 2
  | join => 2
  | trim => 1
  | upper => 1
  | lower => 1
  | startsWith => 2
  | endsWith => 2
  | contains => 2
  | keys => 1
  | values => 1
  | entries => 1
  | hasField => 2
  | deleteField => 2
  | merge => 2
  | clone => 1
  | deepClone => 1
  | toJSON => 1
  | parseJSON => 1
  | abs => 1
  | floor => 1
  | ceil => 1
  | round => 2
  | sqrt => 1
  | pow => 2
  | min => 2
  | max => 2
  | clamp => 3
  | isNaN => 1
  | isFinite => 1
  | random => 0
  | now => 0
  | time => 0
  | date => 0
  | sleep => 1
  | exit => 1
  | getEnv => 1
  | setEnv => 2
  | environment => 0
  | assert => 2
  | isOk => 0
  | lastError => 0
  | lastStatus => 0
  | clearError => 0
  | makeError => 3
  | errorObject => 0
  | readFile => 1
  | writeFile => 2
  | appendFile => 2
  | fileExists => 1
  | dirExists => 1
  | deleteFile => 1
  | getFileSize => 1
  | readBytes => 1
  | writeBytes => 2
  | readLines => 1
  | renameFile => 2
  | copyFile => 2
  | createDir => 1
  | removeDir => 1
  | listDir => 1
  | openFile => 2
  | closeFile => 1

def ofName? (name : String) : Option Builtin := all.find? (·.name == name)

/-- The place of a builtin in the list, by name. -/
def indexOf? (name : String) : Option Nat := all.findIdx? (·.name == name)

/-- How a builtin shows itself in diagnostics. -/
def text (b : Builtin) : String := "BuiltinFunction(" ++ b.name ++ ")"

end Builtin

end ValueMachine
