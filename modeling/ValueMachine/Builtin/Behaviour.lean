import ValueMachine.Builtin.Console
import ValueMachine.Builtin.Files
import ValueMachine.Builtin.System
import ValueMachine.Sort
import ValueMachine.Value.Copies
import ValueMachine.Value.Json
import ValueMachine.Value.Limits
import ValueMachine.Value.Numbers
import ValueMachine.Value.Objects
import ValueMachine.Value.Texts

/-!
# What builtins do

Builtins take any number of arguments; missing ones are undefined and further ones are ignored.
-/

namespace ValueMachine

namespace Value

/-- An operation whose key must be a text; it publishes its own outcome. -/
def withKey (operation : String) (onKey : Value → String → Run Value) (object key : Value) :
    Run Value := do
  match (← payloadOf key).text? with
  | some name => onKey object name
  | none => settle (fail (.argument operation "key must be a string") (.bool false))

end Value

namespace Builtin

/-- Runs a builtin; `call` is how it calls functions that it is given. -/
def run (b : Builtin) (call : Caller) (args : List Value) : Run Value :=
  let x := args.getD 0 .undefined
  let y := args.getD 1 .undefined
  let z := args.getD 2 .undefined
  match b with
  | print => do
    Console.printValues args false
    settle (return .undefined)
  | println => do
    Console.printValues args true
    settle (return .undefined)
  | printf => settle (Console.printf x (args.drop 1))
  | input => Console.input x
  | len => settle (Value.len x)
  | typeOf => Value.typeOf x
  | toNum => settle (Value.toNum x)
  | toStr => Value.toStr x
  | toBl => settle (Value.toBl x)
  | toInt => Value.toInt x
  | isNum => settle (Value.kindIs (· == .number) x)
  | isStr => settle (Value.kindIs (· == .string) x)
  | isBl => settle (Value.kindIs (· == .bool) x)
  | isArr => settle (Value.kindIs (· == .array) x)
  | isObj => settle (Value.kindIs (fun k => k == .object || k == .array) x)
  | isNull => settle (Value.kindIs (· == .null) x)
  | isUndef => settle (Value.kindIs (· == .undefined) x)
  | isFunc => settle (Value.kindIs (· == .function) x)
  | push => settle (Value.push x y)
  | pop => settle (Value.pop x)
  | shift => settle (Value.shift x)
  | unshift => settle (Value.unshift x y)
  | slice => settle (Value.slice x y z)
  | concat => settle (Value.concat x y)
  | reverse => settle (Value.reverse x)
  | indexOf => Value.indexOf x y
  | includes => settle (Value.includes x y)
  | sort => settle (Value.sort call x y)
  | range => settle (Value.range x y z)
  | charAt => settle (Value.charAt x y)
  | substr => settle (Value.substr x y z)
  | replace => settle (Value.replace x y z)
  | split => settle (Value.split x y)
  | join => settle (Value.join x y)
  | trim => settle (Value.trim x)
  | upper => settle (Value.upper x)
  | lower => settle (Value.lower x)
  | startsWith => settle (Value.startsWith x y)
  | endsWith => settle (Value.endsWith x y)
  | contains => settle (Value.contains x y)
  | keys => settle (Value.keys x)
  | values => settle (Value.values x)
  | entries => settle (Value.entries x)
  | hasField => Value.withKey "hasField" (fun object name => settle (Value.hasField object name)) x y
  | deleteField =>
    Value.withKey "deleteField" (fun object name => settle (Value.deleteField object name)) x y
  | merge => settle (Value.merge x y)
  | clone => Value.shallowClone x
  | deepClone => Value.deepClone x
  | toJSON => settle (Value.encode x)
  | parseJSON => settle (Value.decode x)
  | abs => settle (Value.abs x)
  | floor => settle (Value.floor x)
  | ceil => settle (Value.ceil x)
  | round => if 2 ≤ args.length then settle (Value.roundTo x y) else settle (Value.round x)
  | sqrt => settle (Value.sqrt x)
  | pow => settle (Value.pow x y)
  | min => settle (Value.min x y)
  | max => settle (Value.max x y)
  | clamp => settle (Value.clamp x y z)
  | isNaN => settle (Value.isNaN x)
  | isFinite => settle (Value.isFinite x)
  | random => settle System.random
  | now => settle System.now
  | time => settle System.time
  | date => settle System.date
  | sleep => settle (System.sleep x)
  | exit => System.exit x
  | getEnv => settle (System.getEnv x)
  | setEnv => settle (System.setEnv x y)
  | environment => settle System.environment
  | assert => System.assert x y
  | isOk => System.isOk
  | lastError => System.lastError
  | lastStatus => System.lastStatus
  | clearError => System.clearError
  | makeError => settle (Value.makeError x y z)
  | errorObject => System.errorObject
  | readFile => settle (Files.readFile x)
  | writeFile => settle (Files.writeFile x y)
  | appendFile => settle (Files.appendFile x y)
  | fileExists => settle (Files.fileExists x)
  | dirExists => settle (Files.dirExists x)
  | deleteFile => settle (Files.deleteFile x)
  | getFileSize => settle (Files.getFileSize x)
  | readBytes => settle (Files.readBytes x)
  | writeBytes => settle (Files.writeBytes x y)
  | readLines => settle (Files.readLines x)
  | renameFile => settle (Files.renameFile x y)
  | copyFile => settle (Files.copyFile x y)
  | createDir => settle (Files.createDir x)
  | removeDir => settle (Files.removeDir x)
  | listDir => settle (Files.listDir x)
  | openFile => settle (Files.openFile x y)
  | closeFile => settle (Files.closeFile x)

/-- A builtin as the body of a function. -/
def body (b : Builtin) : Body := fun call args => return some (← b.run call args)

end Builtin

end ValueMachine
