import ValueMachine.Machine
import ValueMachine.Text.Lines
import ValueMachine.Value.Coercion

/-!
# File builtins

Programs name files by paths. Every failure leaves a status and gives false or a typed null.
-/

namespace ValueMachine.Files

/-- A computation on the heap and the files that may fail. -/
abbrev FileAttempt := AttemptOn FileTree

/-- The text behind a handle, or a failure that leaves false. -/
def flagTextArg (v : Value) (operation label : String) : Attempt String :=
  require Payload.text? v operation (label ++ " must be a string") (return .bool false)

/-- The result of a step on the files, or a failure with the given fallback. -/
def ask {α : Type} (step : FileTree → Except FileProblem α) (operation problem : String)
    (fallback : HeapM Value) : FileAttempt α := do
  match step (← get) with
  | .ok result => return result
  | .error _ => fail (.refused operation problem) (← fallback)

/-- Changes the files by a step, or fails and leaves false. -/
def change (step : FileTree → Except FileProblem FileTree) (operation problem : String) :
    FileAttempt Unit := do
  set (← ask step operation problem (return .bool false))

/-! ## Reading -/

/-- The bytes of the file at a path. -/
def readAll (path : Value) (operation : String) (kind : Kind) : FileAttempt (List UInt8) := do
  let path ← textArg path operation "path" kind
  ask (·.read path) operation "cannot open file" (Value.nullOf kind)

def readFile (path : Value) : FileAttempt Value := do
  Value.ofText (Text.Utf8.decodeLossy (← readAll path "readFile" .string))

def readBytes (path : Value) : FileAttempt Value := do
  Value.ofBytes (← readAll path "readBytes" .object).toArray

/-- The lines of a file without their terminators. -/
def readLines (path : Value) : FileAttempt Value := do
  let content := Text.Utf8.decodeLossy (← readAll path "readLines" .array)
  Value.ofList (← (Text.lines content.toList).mapM fun line => Value.ofChars line)

/-! ## Writing -/

def writeFile (path content : Value) : FileAttempt Value := do
  let path ← flagTextArg path "writeFile" "path"
  let content ← flagTextArg content "writeFile" "content"
  change (·.write path (Text.Utf8.encode content)) "writeFile" "cannot create file"
  return .bool true

def appendFile (path content : Value) : FileAttempt Value := do
  let path ← flagTextArg path "appendFile" "path"
  let content ← flagTextArg content "appendFile" "content"
  change (·.append path (Text.Utf8.encode content)) "appendFile" "cannot open file"
  return .bool true

/-- The bytes that an array of numbers or a buffer stands for. -/
def bytesOf? (h : Heap) (data : Value) : Option (List UInt8) :=
  match h.payload data with
  | .array items => some (items.toList.map fun item => Number.toByte (h.toNumber item))
  | .extension e => e.bytes?.map Array.toList
  | _ => none

def writeBytes (path data : Value) : FileAttempt Value := do
  let path ← flagTextArg path "writeBytes" "path"
  match ← observe (bytesOf? · data) with
  | none => fail (.argument "writeBytes" "data must be Buffer or array") (.bool false)
  | some bytes =>
    change (·.write path bytes) "writeBytes" "cannot create file"
    return .bool true

/-! ## Asking -/

/-- A question about the path that a value names; other values name none. -/
def askPath {α : Type} (path : Value) (answer : FileTree → String → α) (default : α) :
    FileAttempt α := do
  return (← payloadOf path).text?.elim default (answer (← get))

def fileExists (path : Value) : FileAttempt Value :=
  return .bool (← askPath path FileTree.isFile false)

def dirExists (path : Value) : FileAttempt Value :=
  return .bool (← askPath path FileTree.isDirectory false)

/-- The number of bytes of a file, or minus one. Directories have no bytes. -/
def getFileSize (path : Value) : FileAttempt Value := do
  match ← askPath path FileTree.openToRead (.error .invalid) with
  | .ok (.file content) => Value.ofNat content.length
  | .ok .directory => Value.ofNat 0
  | .error _ => Value.ofNumber (-1.0)

/-- The names in a directory, sorted. -/
def listDir (path : Value) : FileAttempt Value := do
  let path ← textArg path "listDir" "path" .array
  let names ← ask (·.list path) "listDir" "cannot open directory" (Value.nullOf .array)
  Value.ofList (← (names.mergeSort fun a b => a ≤ b).mapM fun name => Value.ofText name)

/-! ## Removing, renaming, copying -/

def deleteFile (path : Value) : FileAttempt Value := do
  let path ← flagTextArg path "deleteFile" "path"
  change (·.removeFile path) "deleteFile" "failed to delete file"
  return .bool true

def renameFile (source target : Value) : FileAttempt Value := do
  let source ← flagTextArg source "renameFile" "oldPath"
  let target ← flagTextArg target "renameFile" "newPath"
  change (·.rename source target) "renameFile" "failed to rename file"
  return .bool true

/-- Copies the content of a file. The source is opened first, then the target is emptied, and only
then is the source read: a file copied onto itself ends up empty. -/
def copyFile (source target : Value) : FileAttempt Value := do
  let source ← flagTextArg source "copyFile" "src"
  let target ← flagTextArg target "copyFile" "dest"
  let _ ← ask (·.openToRead source) "copyFile" "cannot open source file" (return .bool false)
  change (·.write target []) "copyFile" "cannot create destination file"
  let content ← ask (·.read source) "copyFile" "failed to write to destination file"
    (return .bool false)
  change (·.write target content) "copyFile" "failed to write to destination file"
  return .bool true

/-! ## Directories -/

def createDir (path : Value) : FileAttempt Value := do
  let path ← flagTextArg path "createDir" "path"
  let refuse := fun problem => fail (.refused "createDir" problem) (.bool false)
  match (← get).makeDirectory path with
  | .ok files =>
    set files
    return .bool true
  | .error .exists => refuse "directory already exists"
  | .error _ => refuse "failed to create directory"

def removeDir (path : Value) : FileAttempt Value := do
  let path ← flagTextArg path "removeDir" "path"
  let refuse := fun problem => fail (.refused "removeDir" problem) (.bool false)
  match (← get).removeDirectory path with
  | .ok files =>
    set files
    return .bool true
  | .error .notEmpty => refuse "directory not empty"
  | .error .notFound => refuse "directory does not exist"
  | .error _ => refuse "failed to remove directory"

/-! ## Handles -/

/-- Opens a file as a mode asks: `r` needs it to exist, `w` empties it, `a` starts at its end.
Answers the position at which it starts. -/
def openAs (path mode : String) : FileAttempt Nat := do
  let refuse := Value.nullOf .object
  match mode with
  | "r" =>
    let _ ← ask (·.openToRead path) "openFile" "cannot open file" refuse
    return 0
  | "w" =>
    set (← ask (·.write path []) "openFile" "cannot open file" refuse)
    return 0
  | "a" =>
    let (_, content) ← ask (·.openToWrite path) "openFile" "cannot open file" refuse
    set (← ask (·.append path []) "openFile" "cannot open file" refuse)
    return content.length
  | _ => failNull (.argument "openFile" "mode must be \"r\", \"w\" or \"a\"") .object

def openFile (path mode : Value) : FileAttempt Value := do
  let path ← textArg path "openFile" "path" .object
  let mode := (← payloadOf mode).text?.getD "r"
  let position ← openAs path mode
  Value.ofExtension (.fileHandle ⟨path, mode, position, true⟩)

/-- Marks a file handle as closed, and tells whether it was open. -/
def closeFile (handle : Value) : Attempt Value := do
  match ← payloadOf handle with
  | .extension (.fileHandle file) =>
    writePayload handle (.extension (.fileHandle { file with isOpen := false }))
    return .bool file.isOpen
  | _ => return .bool false

end ValueMachine.Files
