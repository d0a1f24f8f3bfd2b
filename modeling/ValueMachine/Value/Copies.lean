import ValueMachine.Operation

/-!
# Deep copies

A deep copy has new arrays and objects all the way down and shares everything else with its source,
except that objects with a payload of their own are copied too. An array or object that is reached
twice is copied once, so sharing and cycles are kept.

Results:
* `Copied.get?_note`: what is found after noting a copy.
-/

namespace ValueMachine

/-- The copies made so far, at the addresses of their sources. -/
structure Copied where
  copies : Array (Option Value)

namespace Copied

/-- No copies yet, with room for those of every cell of a heap. -/
def start (h : Heap) : Copied := ⟨Array.replicate h.size none⟩

def get? (c : Copied) : Value → Option Value
  | .cell address => c.copies.getD address none
  | _ => none

/-- Notes a copy under its source. -/
def note (c : Copied) (source copy : Value) : Copied :=
  match source with
  | .cell address => ⟨c.copies.setIfInBounds address (some copy)⟩
  | _ => c

/-- Whether there is room for the copy of a source. -/
def admits (c : Copied) : Value → Bool
  | .cell address => address < c.copies.size
  | _ => false

theorem get?_start (h : Heap) (v : Value) : (start h).get? v = none := by
  cases v with
  | cell address =>
    by_cases lt : address < h.size <;> simp [start, get?, Array.getD_eq_getD_getElem?, lt]
  | _ => rfl

theorem get?_note_self {c : Copied} {source : Value} (copy : Value)
    (room : c.admits source = true) : (c.note source copy).get? source = some copy := by
  cases source with
  | cell address =>
    have lt : address < c.copies.size := of_decide_eq_true room
    simp [note, get?, Array.getD_eq_getD_getElem?, lt]
  | _ => simp [admits] at room

theorem get?_note_of_ne (c : Copied) {source v : Value} (copy : Value) (ne : v ≠ source) :
    (c.note source copy).get? v = c.get? v := by
  cases source with
  | cell address =>
    cases v with
    | cell other =>
      have ne' : address ≠ other := fun eq => ne (by rw [eq])
      simp [note, get?, Array.getD_eq_getD_getElem?, ne']
    | _ => rfl
  | _ => rfl

theorem get?_note (c : Copied) {source : Value} (copy : Value) (room : c.admits source = true)
    (v : Value) : (c.note source copy).get? v = if v = source then some copy else c.get? v := by
  by_cases eq : v = source
  · rw [if_pos eq, eq, get?_note_self copy room]
  · rw [if_neg eq, get?_note_of_ne c copy eq]

end Copied

/-- An object with a field written; what is no object stays as it is. -/
def Payload.withField (threshold : Nat) (key : String) (v : Value) : Payload → Payload
  | object fields => object (fields.insert threshold key v).2
  | p => p

namespace Value

/-- A computation on the heap that remembers copies. -/
abbrev CopyM := StateT Copied HeapM

/-- Notes a copy under its source. -/
def remember (source copy : Value) : CopyM Unit := modify (·.note source copy)

/-- Gives a field to an object that is being copied. -/
def putField (object : Value) (key : String) (v : Value) : HeapM Unit := do
  let threshold := (← read).hashThreshold
  modify (·.update object (Payload.withField threshold key v))

/-- Copies at most `depth` levels. A container is noted before its elements are copied, so that they
can lead back to it. The copy of an array gets its elements at the end, that of an object gets each
field as it is copied. -/
def copyWithin : (depth : Nat) → Value → CopyM Value
  | 0, v => return v
  | depth + 1, v => do
    match (← get).get? v with
    | some copy => return copy
    | none =>
      match ← payloadOf v with
      | .array items =>
        let copy ← ofArray #[]
        remember v copy
        let copies ← items.toList.mapM (copyWithin depth)
        writePayload copy (.array copies.toArray)
        return copy
      | .object fields =>
        let copy ← ofTable .empty
        remember v copy
        fields.toList.forM fun (key, item) => do
          putField copy key (← copyWithin depth item)
        return copy
      | .extension e => ofExtension e
      | _ => return v

/-- A path into a value passes every container at most once before it comes back to one that has
been copied, so the number of cells bounds its depth. -/
def deepClone (v : Value) : HeapM Value := do
  let h ← get
  (copyWithin (h.size + 1) v).run' (.start h)

end Value

end ValueMachine
