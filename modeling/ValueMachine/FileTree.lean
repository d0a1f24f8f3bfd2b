/-!
# Files

A tree of files and directories under a working directory, kept as a flat list of paths from that
directory. Paths are written with slashes; `.` and `..` are resolved step by step through
directories that exist. What lies outside the working directory is not modelled: it is a directory
in which nothing is found.
-/

namespace ValueMachine

/-- A path from the working directory, the working directory itself being the empty one. -/
abbrev FilePath := List String

inductive FileNode where
  | file (content : List UInt8)
  | directory
  deriving DecidableEq

structure FileTree where
  nodes : List (FilePath × FileNode)

/-- Why a step on the tree fails. -/
inductive FileProblem where
  | notFound
  | notDirectory
  | isDirectory
  | exists
  | notEmpty
  /-- The name itself is not acceptable. -/
  | invalid
  deriving DecidableEq

/-- A directory that a path leads through. -/
inductive Place where
  | inside (path : FilePath)
  | outside
  deriving DecidableEq

/-- How a path ends that names a directory without a name of its own. -/
inductive Ending where
  | root
  | here
  | up
  deriving DecidableEq

/-- What a written path leads to: a directory, or a name in a directory, which need not exist. -/
inductive Target where
  | directory (place : Place) (ending : Ending)
  | entry (directory : FilePath) (name : String) (slashed : Bool)
  deriving DecidableEq

namespace FileTree

def empty : FileTree := ⟨[]⟩

def node? (t : FileTree) (path : FilePath) : Option FileNode :=
  if path.isEmpty then some .directory else t.nodes.lookup path

/-! ## Resolving paths -/

/-- The longest name of a file, in bytes. -/
def maxName : Nat := 255

/-- The longest written path, in bytes. -/
def maxPath : Nat := 4095

def upFrom : Place → Place
  | .inside [] => .outside
  | .inside path => .inside path.dropLast
  | .outside => .outside

/-- One step through a directory that must exist. -/
def step (t : FileTree) (place : Place) (name : String) : Except FileProblem Place :=
  if name = "." ∨ name = "" then .ok place
  else if name = ".." then .ok (upFrom place)
  else if maxName < name.utf8ByteSize then .error .invalid
  else match place with
    | .outside => .error .notFound
    | .inside path =>
      match t.node? (path ++ [name]) with
      | some .directory => .ok (.inside (path ++ [name]))
      | some (.file _) => .error .notDirectory
      | none => .error .notFound

/-- The last step, which may name what does not exist. -/
def lastStep (place : Place) (name : String) (slashed : Bool) : Except FileProblem Target :=
  if name = "." then .ok (.directory place .here)
  else if name = ".." then .ok (.directory (upFrom place) .up)
  else if maxName < name.utf8ByteSize then .error .invalid
  else match place with
    | .outside => .error .notFound
    | .inside path => .ok (.entry path name slashed)

/-- The parts of a text between slashes. -/
def splitSlashes : List Char → List (List Char)
  | [] => [[]]
  | c :: rest =>
    if c = '/' then [] :: splitSlashes rest
    else match splitSlashes rest with
      | [] => [[c]]
      | part :: parts => (c :: part) :: parts

/-- What a written path leads to. -/
def resolve (t : FileTree) (written : String) : Except FileProblem Target := do
  let chars := written.toList
  if chars.isEmpty then throw .notFound
  if chars.contains '\x00' || maxPath < written.utf8ByteSize then throw .invalid
  let start : Place := if chars.head? = some '/' then .outside else .inside []
  let names := (splitSlashes chars).filter (!·.isEmpty) |>.map String.ofList
  match names.getLast? with
  | none => return .directory start .root
  | some name =>
    let place ← names.dropLast.foldlM t.step start
    lastStep place name (chars.getLast? = some '/')

/-- A file or directory that exists. A path that ends in a slash names a directory. -/
def locate (t : FileTree) (written : String) : Except FileProblem (Place × FileNode) := do
  match ← t.resolve written with
  | .directory place _ => return (place, .directory)
  | .entry directory name slashed =>
    let path := directory ++ [name]
    match t.node? path with
    | none => throw .notFound
    | some (.file content) =>
      if slashed then throw .notDirectory else return (.inside path, .file content)
    | some .directory => return (.inside path, .directory)

def isFile (t : FileTree) (written : String) : Bool :=
  match t.locate written with
  | .ok (_, .file _) => true
  | _ => false

def isDirectory (t : FileTree) (written : String) : Bool :=
  match t.locate written with
  | .ok (_, .directory) => true
  | _ => false

/-! ## Reading -/

/-- Opens a file or a directory for reading. -/
def openToRead (t : FileTree) (written : String) : Except FileProblem FileNode :=
  (t.locate written).map (·.2)

/-- The content of a file; a directory has none. -/
def contentOf : FileNode → Except FileProblem (List UInt8)
  | .file content => .ok content
  | .directory => .error .isDirectory

def read (t : FileTree) (written : String) : Except FileProblem (List UInt8) := do
  contentOf (← t.openToRead written)

/-- The names in a directory. -/
def namesIn (t : FileTree) (directory : FilePath) : List String :=
  t.nodes.filterMap fun (path, _) =>
    if path.dropLast = directory then path.getLast? else none

def list (t : FileTree) (written : String) : Except FileProblem (List String) := do
  match ← t.locate written with
  | (.inside path, .directory) => return t.namesIn path
  | (.outside, .directory) => return []
  | (_, .file _) => throw .notDirectory

/-! ## Writing -/

/-- Replaces what stands at a path, or appends it. -/
def put (t : FileTree) (path : FilePath) (node : FileNode) : FileTree :=
  if (t.nodes.lookup path).isSome then
    ⟨t.nodes.map fun (other, old) => (other, if other = path then node else old)⟩
  else ⟨t.nodes ++ [(path, node)]⟩

/-- The path at which a file can be opened for writing, with its content; a file that does not exist
is empty. -/
def openToWrite (t : FileTree) (written : String) : Except FileProblem (FilePath × List UInt8) := do
  match ← t.resolve written with
  | .directory _ _ => throw .isDirectory
  | .entry directory name slashed =>
    let path := directory ++ [name]
    match t.node? path with
    | some .directory => throw .isDirectory
    | some (.file content) => if slashed then throw .notDirectory else return (path, content)
    | none => if slashed then throw .isDirectory else return (path, [])

/-- Writes the content of a file, which is made if it does not exist. -/
def write (t : FileTree) (written : String) (content : List UInt8) :
    Except FileProblem FileTree := do
  let (path, _) ← t.openToWrite written
  return t.put path (.file content)

/-- Writes at the end of a file, which is made if it does not exist. -/
def append (t : FileTree) (written : String) (content : List UInt8) :
    Except FileProblem FileTree := do
  let (path, old) ← t.openToWrite written
  return t.put path (.file (old ++ content))

def makeDirectory (t : FileTree) (written : String) : Except FileProblem FileTree := do
  match ← t.resolve written with
  | .directory _ _ => throw .exists
  | .entry directory name _ =>
    let path := directory ++ [name]
    if (t.node? path).isSome then throw .exists else return t.put path .directory

/-! ## Removing and renaming -/

def drop (t : FileTree) (path : FilePath) : FileTree := ⟨t.nodes.filter (·.1 ≠ path)⟩

def removeFile (t : FileTree) (written : String) : Except FileProblem FileTree := do
  match ← t.resolve written with
  | .directory _ _ => throw .isDirectory
  | .entry directory name slashed =>
    let path := directory ++ [name]
    match t.node? path with
    | none => throw .notFound
    | some .directory => throw .isDirectory
    | some (.file _) => if slashed then throw .notDirectory else return t.drop path

/-- Removes an empty directory. -/
def removeDirectory (t : FileTree) (written : String) : Except FileProblem FileTree := do
  match ← t.resolve written with
  | .directory _ .up => throw .notEmpty
  | .directory _ _ => throw .invalid
  | .entry directory name _ =>
    let path := directory ++ [name]
    match t.node? path with
    | none => throw .notFound
    | some (.file _) => throw .notDirectory
    | some .directory => if (t.namesIn path).isEmpty then return t.drop path else throw .notEmpty

/-- Moves everything at or below a path. -/
def move (t : FileTree) (source target : FilePath) : FileTree :=
  ⟨(t.drop target).nodes.map fun (path, node) =>
    if source.isPrefixOf path then (target ++ path.drop source.length, node) else (path, node)⟩

/-- Whether a node may take the place of another: a file that of a file, a directory that of an
empty directory. -/
def mayReplace (t : FileTree) (node : FileNode) (target : FilePath) : Except FileProblem Unit :=
  match node, t.node? target with
  | _, none => .ok ()
  | .file _, some (.file _) => .ok ()
  | .file _, some .directory => .error .isDirectory
  | .directory, some (.file _) => .error .notDirectory
  | .directory, some .directory =>
    if (t.namesIn target).isEmpty then .ok () else .error .notEmpty

/-- Renames a file or a directory, which may take another's place but not move into itself. -/
def rename (t : FileTree) (source target : String) : Except FileProblem FileTree := do
  match ← t.resolve source, ← t.resolve target with
  | .entry oldDirectory oldName oldSlashed, .entry newDirectory newName newSlashed =>
    let old := oldDirectory ++ [oldName]
    let new := newDirectory ++ [newName]
    match t.node? old with
    | none => throw .notFound
    | some node =>
      if node ≠ .directory && (oldSlashed || newSlashed) then throw .notDirectory
      if old = new then return t
      if old.isPrefixOf new then throw .invalid
      t.mayReplace node new
      return t.move old new
  | _, _ => throw .invalid

end FileTree

end ValueMachine
