import ValueMachine.Table.Entries
import ValueMachine.Table.Hash

/-!
# Hashed tables

An open-addressed table with linear probing. Slots hold positions in an entry list that is kept in
insertion order; removing leaves a tombstone in the slots and a hole in the entry list until the
next rebuild. At most three quarters of the slots are in use, so every probe ends at an empty slot;
probes are bounded by the number of slots all the same.

A position has 32 bits. One that needs more loses its upper bits, and the entry that it was for is
then not found (`Storage.HasRoom` says when this can not happen).
-/

namespace ValueMachine.Table

inductive Slot where
  | empty
  | tombstone
  | full (position : UInt32)
  deriving DecidableEq

/-- The position in the entry list that a slot holds. -/
def Slot.position? : Slot → Option Nat
  | full position => some position.toNat
  | _ => none

/-- What a search for a key ends with: the slot and the entry that hold it, or the slot at which it
would be put. -/
inductive Lookup where
  | found (slot entry : Nat)
  | vacant (slot : Nat)
  deriving DecidableEq

structure Hashed (α : Type) where
  entries : Array (Option (Entry α))
  slots : Array Slot
  live : Nat
  tombstones : Nat

namespace Hashed

variable {α : Type}

def minCapacity : Nat := 32

/-- The slot at which the search for a key begins. -/
def home (capacity : Nat) (key : String) : Nat := (hash key).toNat % capacity

/-- The next slot, around the end. -/
def next (capacity slot : Nat) : Nat := (slot + 1) % capacity

/-- The entries that have not been removed, oldest first. -/
def toList (t : Hashed α) : List (Entry α) := t.entries.toList.filterMap id

/-- Walks the slots from `slot` on, remembering the first tombstone, up to the key or an empty
slot. -/
def probe (t : Hashed α) (key : String) : (fuel slot : Nat) → (tombstone : Option Nat) → Lookup
  | 0, slot, tombstone => .vacant (tombstone.getD slot)
  | fuel + 1, slot, tombstone =>
    let onward := next t.slots.size slot
    match t.slots.getD slot .empty with
    | .empty => .vacant (tombstone.getD slot)
    | .tombstone => probe t key fuel onward (tombstone.or (some slot))
    | .full position =>
      match t.entries.getD position.toNat none with
      | some entry =>
        if entry.key = key then .found slot position.toNat else probe t key fuel onward tombstone
      | none => probe t key fuel onward tombstone

def lookup (t : Hashed α) (key : String) : Lookup :=
  t.probe key t.slots.size (home t.slots.size key) none

def get? (t : Hashed α) (key : String) : Option α :=
  match t.lookup key with
  | .found _ index => (t.entries.getD index none).map (·.value)
  | .vacant _ => none

/-- The first empty slot from `slot` on. -/
def firstEmpty (slots : Array Slot) : (fuel slot : Nat) → Nat
  | 0, slot => slot
  | fuel + 1, slot =>
    if slots.getD slot .empty = .empty then slot
    else firstEmpty slots fuel (next slots.size slot)

/-- Puts positions `index`, `index + 1`, … of the given entries into the slots. -/
def place (slots : Array Slot) (index : Nat) : List (Entry α) → Array Slot
  | [] => slots
  | entry :: rest =>
    let slot := firstEmpty slots slots.size (home slots.size entry.key)
    place (slots.setIfInBounds slot (.full (.ofNat index))) (index + 1) rest

/-- A table of the given capacity with the given entries, without holes or tombstones. -/
def build (capacity : Nat) (entries : List (Entry α)) : Hashed α where
  entries := (entries.map some).toArray
  slots := place (Array.replicate capacity .empty) 0 entries
  live := entries.length
  tombstones := 0

/-- The least power of two that is not below `n`. -/
def leastPower (n : Nat) : Nat := if n ≤ 1 then 1 else Nat.pow 2 ((n - 1).log2 + 1)

/-- The smallest table that leaves half of its slots free. -/
def ofEntries (entries : List (Entry α)) : Hashed α :=
  build (leastPower (max (entries.length * 2) minCapacity)) entries

def rebuild (t : Hashed α) (capacity : Nat) : Hashed α := build capacity t.toList

/-- Writes a new entry at its end and its position into a vacant slot. -/
def append (t : Hashed α) (slot : Nat) (key : String) (value : α) : Hashed α :=
  match t with
  | ⟨entries, slots, live, tombstones⟩ =>
    let reused := slots.getD slot .empty == .tombstone
    let position := UInt32.ofNat entries.size
    { entries := entries.push (some ⟨key, value⟩)
      slots := slots.setIfInBounds slot (.full position)
      live := live + 1
      tombstones := if reused then tombstones - 1 else tombstones }

/-- Doubles the capacity if one more slot in use would be more than three quarters of them. -/
def reserve (t : Hashed α) : Hashed α :=
  if t.slots.size * 3 < (t.live + t.tombstones + 1) * 4 then t.rebuild (t.slots.size * 2) else t

/-- Writes a value; a key that is present keeps its place. Answers the previous value. -/
def insert (t : Hashed α) (key : String) (value : α) : Option α × Hashed α :=
  match t.lookup key with
  | .found _ index =>
    ((t.entries.getD index none).map (·.value),
      { t with entries := t.entries.setIfInBounds index (some ⟨key, value⟩) })
  | .vacant _ =>
    let t := t.reserve
    match t.lookup key with
    | .vacant slot => (none, t.append slot key value)
    | .found .. => (none, t)

/-- Leaves a tombstone in the slot and a hole in the entry list. -/
def clear (t : Hashed α) (slot index : Nat) : Hashed α where
  entries := t.entries.setIfInBounds index none
  slots := t.slots.setIfInBounds slot .tombstone
  live := t.live - 1
  tombstones := t.tombstones + 1

/-- Rebuilds at the same capacity once the holes outnumber both the live entries and 32. -/
def compact (t : Hashed α) : Hashed α :=
  if max t.live minCapacity < t.entries.size - t.live then t.rebuild t.slots.size else t

/-- Removes a key and answers its value. -/
def erase (t : Hashed α) (key : String) : Option α × Hashed α :=
  match t.lookup key with
  | .found slot index =>
    ((t.entries.getD index none).map (·.value), (t.clear slot index).compact)
  | .vacant _ => (none, t)

end Hashed

end ValueMachine.Table
