import ValueMachine.Table.Storage

/-!
# Tables

A table maps text keys to values and lists them in the order of their first insertion. A table
carries the proof that its storage is valid, so that there are no others.
-/

namespace ValueMachine

structure Table (α : Type) where
  storage : Table.Storage α
  isValid : storage.IsValid

namespace Table

variable {α : Type}

def empty : Table α := ⟨.linear [], List.nodup_nil⟩

/-- A table that is hashed from the start. -/
def emptyHashed : Table α :=
  ⟨.hashed (Hashed.ofEntries []), Storage.isValid_ofEntries (Nat.zero_le _) List.nodup_nil⟩

def isHashed (t : Table α) : Bool :=
  match t.storage with
  | .linear _ => false
  | .hashed _ => true

/-- The number of slots; a plain list has none. -/
def capacity (t : Table α) : Nat :=
  match t.storage with
  | .linear _ => 0
  | .hashed table => table.slots.size

def size (t : Table α) : Nat := t.storage.size

def isEmpty (t : Table α) : Bool := t.size == 0

/-- The entries in order. -/
def entries (t : Table α) : List (Entry α) := t.storage.entries

/-- Keys and values in order. -/
def toList (t : Table α) : List (String × α) := t.entries.map fun e => (e.key, e.value)

def keys (t : Table α) : List String := t.entries.map (·.key)

def values (t : Table α) : List α := t.entries.map (·.value)

def get? (t : Table α) (key : String) : Option α := t.storage.get? key

def contains (t : Table α) (key : String) : Bool := (t.get? key).isSome

/-- Writes a value; a key that is present keeps its place, another goes to the end. Answers the
previous value. -/
def insert (threshold : Nat) (t : Table α) (key : String) (value : α) : Option α × Table α :=
  let written := t.storage.write threshold key value
  (written.1, ⟨written.2, t.isValid.write threshold key value⟩)

/-- Removes a key and answers its value. -/
def erase (t : Table α) (key : String) : Option α × Table α :=
  let erased := t.storage.erase key
  (erased.1, ⟨erased.2, t.isValid.erase key⟩)

/-- Writes the given pairs one after the other. -/
def insertAll (threshold : Nat) (t : Table α) (pairs : List (String × α)) : Table α :=
  pairs.foldl (fun t (key, value) => (t.insert threshold key value).2) t

/-- The table of the given pairs; of pairs with one key, the last gives the value. -/
def ofList (threshold : Nat) (pairs : List (String × α)) : Table α :=
  empty.insertAll threshold pairs

end Table

end ValueMachine
