import ValueMachine.Environment
import ValueMachine.FileTree
import ValueMachine.Operation
import ValueMachine.Report

/-!
# The machine

All that a running program can see and change: the heap, the configuration, the status of the last
operation, the environment, the files and the console. Operations on the heap run on it through
`settle`, which publishes how they ended.
-/

namespace ValueMachine

/-- What the outside world answers when it is asked. -/
structure Host where
  platform : String
  /-- Date and time of the day where the program runs. -/
  localTime : String
  /-- Microseconds since the beginning of 1970. -/
  microseconds : Nat
  /-- A number of the unit interval. -/
  random : Float

structure Machine where
  heap : Heap
  config : Config
  status : Status
  environment : Environment
  files : FileTree
  /-- Bytes that the console has not read yet. -/
  input : List UInt8
  /-- The pieces of text that have been printed, the latest one first. -/
  output : List (List Char)
  host : Host

/-- A machine at the start of a program. -/
def Machine.start (host : Host) (input : List UInt8) (outside : Outside := .standard) :
    Machine where
  heap := .empty outside
  config := .standard
  status := .ok
  environment := .empty
  files := .empty
  input
  output := []
  host

/-- All that has been printed. -/
def Machine.printed (m : Machine) : List Char := m.output.reverse.flatten

/-- Why a run stops before its end. -/
inductive Halt where
  /-- The operation cannot be carried out; the machine stays as it is. -/
  | panic
  /-- The program ends with a code and a report. -/
  | exit (code : Int) (report : String)
  /-- Calls are nested too deep. -/
  | exhausted
  deriving DecidableEq

/-- A computation of the machine. -/
abbrev Run := ExceptT Halt (StateM Machine)

/-- A computation of the machine that may fail and leave a status. -/
abbrev Action := ExceptT Failure Run

/-- A computation on the heap and one other part of the machine that may fail. -/
abbrev AttemptOn (σ : Type) := ExceptT Failure (StateT σ HeapM)

/-! ## Computations of parts of the machine -/

namespace Run

/-- Runs a computation on the heap. Meanwhile the machine has no heap. -/
def ofHeap {α : Type} (x : HeapM α) : Run α :=
  modifyGet fun m =>
    let heap := m.heap
    let m := { m with heap := .empty }
    let (a, heap) := (x.run m.config).run heap
    (a, { m with heap })

/-- Runs a computation on the heap and the files. Meanwhile the machine has neither. -/
def ofFiles {α : Type} (x : StateT FileTree HeapM α) : Run α :=
  modifyGet fun m =>
    let heap := m.heap
    let files := m.files
    let m := { m with heap := .empty, files := .empty }
    let ((a, files), heap) := ((x.run files).run m.config).run heap
    (a, { m with heap, files })

/-- Runs a computation on the heap and the environment. Meanwhile the machine has neither. -/
def ofEnvironment {α : Type} (x : StateT Environment HeapM α) : Run α :=
  modifyGet fun m =>
    let heap := m.heap
    let environment := m.environment
    let m := { m with heap := .empty, environment := .empty }
    let ((a, environment), heap) := ((x.run environment).run m.config).run heap
    (a, { m with heap, environment })

end Run

instance : MonadLiftT HeapM Run := ⟨Run.ofHeap⟩

instance {σ : Type} : MonadLiftT Attempt (AttemptOn σ) := ⟨fun x => ExceptT.mk (StateT.lift x.run)⟩

instance : MonadLiftT Attempt Action := ⟨fun x => ExceptT.mk (Run.ofHeap x.run)⟩

instance : MonadLiftT (AttemptOn FileTree) Action := ⟨fun x => ExceptT.mk (Run.ofFiles x.run)⟩

instance : MonadLiftT (AttemptOn Environment) Action :=
  ⟨fun x => ExceptT.mk (Run.ofEnvironment x.run)⟩

/-! ## Publishing outcomes -/

/-- Publishes how an action ended: with its result, or with a failure and the value to fall back
on. -/
def settle (action : Action Value) : Run Value := do
  match ← action.run with
  | .ok v =>
    modify ({ · with status := .ok })
    return v
  | .error failure =>
    modify ({ · with status := failure.status })
    return failure.fallback

def setStatus (status : Status) : Run Unit := modify ({ · with status })

/-- Prints characters. -/
def printOut (content : List Char) : Run Unit :=
  modify fun m => { m with output := content :: m.output }

/-! ## Stopping -/

/-- Stops an operation that cannot be carried out. -/
def giveUp {α : Type} : Run α := throw .panic

/-- The code of a program that is stopped: that of the last status, or that of a plain error. -/
def stopCode (status : Status) : Nat :=
  if status.isOk then StatusCode.error.number else status.code.number

/-- Stops the program with a report. -/
def fatal {α : Type} (message : String) : Run α := do
  let m ← get
  setStatus ⟨.error, message⟩
  let report := fatalReport m.host.platform message m.host.localTime (m.config.colors false)
  throw (.exit (stopCode m.status) report)

end ValueMachine
