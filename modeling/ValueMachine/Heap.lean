import ValueMachine.Number.Rounding
import ValueMachine.Outside

/-!
# The heap

A heap is a growing list of cells. Reading is total: constants have immortal cells that are not in
the list, and an address without a cell reads as `undefined`. Only a cell in the list can be
written, and writing replaces its payload alone. When the last handle to a cell is gone the cell stays
in the list, but a weak handle does not lead to it any more. Handles are not counted: which cells are
gone is part of the state.

Results:
* `Heap.cell_alloc_self`, `Heap.cell_alloc_of_lt`: what reading finds after allocating;
* `Heap.cell_update_self`, `Heap.cell_update_of_ne`: what reading finds after a change;
* `Heap.cell_write_self`, `Heap.cell_write_of_ne`: what reading finds after writing.
-/

namespace ValueMachine

structure Heap where
  cells : Array Cell
  /-- Those of which the last handle is gone. -/
  dropped : List Value := []
  outside : Outside := .standard

namespace Heap

def ofCells (cells : Array Cell) : Heap := { cells }

def empty (outside : Outside := .standard) : Heap := { cells := #[], outside }

def size (h : Heap) : Nat := h.cells.size

/-- The cell behind a handle. -/
def cell (h : Heap) : Value → Cell
  | .undefined => .immortal .undefined
  | .null => .immortal .null
  | .bool b => .immortal (.bool b)
  | .small n => .immortal (.number (Number.ofInt n))
  | .cell address => h.cells.getD address (.immortal .undefined)

def payload (h : Heap) (v : Value) : Payload := (h.cell v).payload

/-- Appends a cell and answers its handle. -/
def alloc (h : Heap) (c : Cell) : Value × Heap :=
  (.cell h.size, { h with cells := h.cells.push c })

/-- Changes the payload of a cell. -/
def update (h : Heap) (v : Value) (change : Payload → Payload) : Heap :=
  match v with
  | .cell address =>
    { h with cells := h.cells.modify address fun c => { c with payload := change c.payload } }
  | _ => h

/-- Replaces the payload of a cell. -/
def write (h : Heap) (v : Value) (payload : Payload) : Heap := h.update v fun _ => payload

/-- The last handle to a cell goes. -/
def drop (h : Heap) (v : Value) : Heap := { h with dropped := v :: h.dropped }

/-- Whether a weak handle leads to a cell for one who has the handle `held`: that keeps its own cell from
going. -/
def isAlive (h : Heap) (held v : Value) : Bool := v = held || !h.dropped.contains v

/-- Whether a handle is one of a cell in the list. -/
def holds (h : Heap) : Value → Bool
  | .cell address => address < h.size
  | _ => false

/-! ## Reading after writing -/

theorem size_alloc (h : Heap) (c : Cell) : (h.alloc c).2.size = h.size + 1 := by
  simp [alloc, size]

theorem cell_alloc_self (h : Heap) (c : Cell) : (h.alloc c).2.cell (h.alloc c).1 = c := by
  simp [alloc, cell, size]

theorem cell_alloc_of_lt (h : Heap) (c : Cell) {address : Nat} (lt : address < h.size) :
    (h.alloc c).2.cell (.cell address) = h.cell (.cell address) := by
  have lt' : address < h.cells.size := lt
  simp [alloc, cell, Array.getD_eq_getD_getElem?, Array.getElem?_push, Nat.ne_of_lt lt']

theorem cell_update_self (h : Heap) {v : Value} (change : Payload → Payload)
    (mem : h.holds v = true) :
    (h.update v change).cell v = { h.cell v with payload := change (h.payload v) } := by
  cases v with
  | cell address =>
    have lt : address < h.cells.size := of_decide_eq_true mem
    simp [update, payload, cell, Array.getD_eq_getD_getElem?, Array.getElem_modify, lt]
  | _ => simp [holds] at mem

theorem cell_update_of_ne (h : Heap) {v w : Value} (change : Payload → Payload) (ne : w ≠ v) :
    (h.update v change).cell w = h.cell w := by
  cases v with
  | cell address =>
    cases w with
    | cell other =>
      have ne' : address ≠ other := fun eq => ne (by rw [eq])
      simp [update, cell, Array.getD_eq_getD_getElem?, Array.getElem?_modify, ne']
    | _ => rfl
  | _ => rfl

theorem payload_update_self (h : Heap) {v : Value} (change : Payload → Payload)
    (mem : h.holds v = true) : (h.update v change).payload v = change (h.payload v) := by
  rw [payload, cell_update_self h change mem]

theorem payload_update_of_ne (h : Heap) {v w : Value} (change : Payload → Payload) (ne : w ≠ v) :
    (h.update v change).payload w = h.payload w := by
  rw [payload, cell_update_of_ne h change ne, payload]

theorem size_update (h : Heap) (v : Value) (change : Payload → Payload) :
    (h.update v change).size = h.size := by
  cases v <;> simp [update, size]

theorem outside_update (h : Heap) (v : Value) (change : Payload → Payload) :
    (h.update v change).outside = h.outside := by
  cases v <;> rfl

theorem dropped_update (h : Heap) (v : Value) (change : Payload → Payload) :
    (h.update v change).dropped = h.dropped := by
  cases v <;> rfl

theorem cell_write_self (h : Heap) {v : Value} (p : Payload) (mem : h.holds v = true) :
    (h.write v p).cell v = { h.cell v with payload := p } := cell_update_self h (fun _ => p) mem

theorem cell_write_of_ne (h : Heap) {v w : Value} (p : Payload) (ne : w ≠ v) :
    (h.write v p).cell w = h.cell w := cell_update_of_ne h (fun _ => p) ne

/-! ## Boxes -/

/-- Follows at most `fuel` boxes. -/
def follow (h : Heap) : (fuel : Nat) → Value → Value
  | 0, v => v
  | fuel + 1, v =>
    match h.payload v with
    | .box content => follow h fuel content
    | _ => v

/-- The value behind any number of boxes. Boxes that hold each other in a circle have none: one of them
is answered here, while a program that asks never gets an answer. -/
def content (h : Heap) (v : Value) : Value := h.follow (h.size + 1) v

/-- What the value behind any number of boxes holds. -/
def contentPayload (h : Heap) (v : Value) : Payload := h.payload (h.content v)

/-- The kind of a value; boxes have the kind of their content. -/
def kind (h : Heap) (v : Value) : Kind := (h.contentPayload v).ownKind

/-- The kind that a value's cell was declared with. -/
def declaredKind (h : Heap) (v : Value) : Kind := (h.cell v).declared

def subKind (h : Heap) (v : Value) : SubKind :=
  match h.payload v with
  | .extension e => e.subKind
  | _ => .plain

/-- The number of elements, entries or characters; zero for all else. -/
def length (h : Heap) (v : Value) : Nat :=
  match h.payload v with
  | .text _ content => content.length
  | .array items => items.size
  | .object fields => fields.size
  | _ => 0

/-- The value in a box; anything else stands for itself. -/
def unbox (h : Heap) (v : Value) : Value :=
  match h.payload v with
  | .box content => content
  | _ => v

/-- What a function has captured in a slot, for one who has the function. -/
def capture? (h : Heap) (function : Value) (slot : Nat) : Option Value :=
  (h.payload function).closure?.bind (·.capture? (h.isAlive function) slot)

end Heap

/-- The handle of a number that needs no cell: a small integer that is not minus zero. -/
def Value.ofSmall? (x : Float) : Option Value :=
  let n := Number.toInt64 x
  if Number.isWhole x && !(n == 0 && Number.isNegative x) && smallest ≤ n && n ≤ largest then
    some (.small n)
  else none

end ValueMachine
