import ValueMachine.Table.Upkeep

/-!
# How tables keep their entries

A small table is a plain list. One that holds `threshold` entries or more becomes hashed when a
further key arrives, and stays hashed. Both do the same to the entries in order, as long as there
are positions for them: a hashed table has `UInt32.size`, and the program cuts what goes beyond.

`Storage.insert` is the program's operation. `Storage.write` is that operation as long as there is
room, and keeps the entries as a plain list afterwards. The program does not do this; it is here so
that tables obey the laws of lists whatever their length, and it is the only place where a table
differs from the program's.

Results:
* `IsValid.insert`, `IsValid.erase`, `IsValid.write`: every operation gives a valid storage;
* `IsValid.get?_eq`, `IsValid.fst_write`, `IsValid.fst_erase`: what the operations answer;
* `IsValid.entries_write_of_some`, `IsValid.entries_write_of_none`, `IsValid.entries_erase`: what
  they do to the entries in order;
* `IsValid.hasRoom`: with fewer than half as many entries as positions, writing is the program's
  operation.
-/

namespace ValueMachine.Table

inductive Storage (α : Type) where
  | linear (entries : List (Entry α))
  | hashed (table : Hashed α)

namespace Storage

variable {α : Type}

/-- The entries in order. -/
def entries : Storage α → List (Entry α)
  | linear entries => entries
  | hashed t => t.toList

def size : Storage α → Nat
  | linear entries => entries.length
  | hashed t => t.live

def get? (s : Storage α) (key : String) : Option α :=
  match s with
  | linear entries => (find? key entries).map (·.value)
  | hashed t => t.get? key

/-- Writes a value; a key that is present keeps its place, another goes to the end. Answers the
previous value. -/
def insert (threshold : Nat) (s : Storage α) (key : String) (value : α) : Option α × Storage α :=
  match s with
  | linear entries =>
    match find? key entries with
    | some e => (some e.value, linear (overwrite key value entries))
    | none =>
      if entries.length < threshold then (none, linear (entries ++ [⟨key, value⟩]))
      else (none, hashed ((Hashed.ofEntries entries).insert key value).2)
  | hashed t =>
    let (previous, t) := t.insert key value
    (previous, hashed t)

/-- Removes a key and answers its value. -/
def erase (s : Storage α) (key : String) : Option α × Storage α :=
  match s with
  | linear entries =>
    ((find? key entries).map (·.value), linear (entries.eraseP (·.key == key)))
  | hashed t =>
    let (previous, t) := t.erase key
    (previous, hashed t)

/-- Whether a further entry gets a position that fits a slot; an entry of a plain list has none. -/
def HasRoom (threshold : Nat) : Storage α → Prop
  | linear entries => entries.length < max threshold UInt32.size
  | hashed t => t.entries.size < UInt32.size

instance (threshold : Nat) (s : Storage α) : Decidable (s.HasRoom threshold) :=
  match s with
  | linear _ => inferInstanceAs (Decidable (_ < _))
  | hashed _ => inferInstanceAs (Decidable (_ < _))

/-- Writes a value, in a plain list when positions have run out. -/
def write (threshold : Nat) (s : Storage α) (key : String) (value : α) : Option α × Storage α :=
  if s.HasRoom threshold then s.insert threshold key value
  else (linear s.entries).insert (s.entries.length + 1) key value

/-! ## Validity -/

/-- Keys are distinct, and a hashed table is sound and has few holes. -/
def IsValid : Storage α → Prop
  | linear entries => (entries.map (·.key)).Nodup
  | hashed t => t.Sound ∧ t.IsCompact

theorem isValid_ofEntries {entries : List (Entry α)} (fits : entries.length ≤ UInt32.size)
    (nodup : (entries.map (·.key)).Nodup) : (hashed (Hashed.ofEntries entries)).IsValid :=
  ⟨Hashed.sound_ofEntries fits nodup, Hashed.isCompact_build _ _⟩

theorem IsValid.nodup {s : Storage α} (h : s.IsValid) : (s.entries.map (·.key)).Nodup := by
  cases s with
  | linear entries => exact h
  | hashed t => exact h.1.nodup

theorem IsValid.length_entries {s : Storage α} (h : s.IsValid) : s.entries.length = s.size := by
  cases s with
  | linear entries => rfl
  | hashed t => exact h.1.length_toList

/-- Holes are few, so that half of the positions are enough for the live entries. -/
theorem IsValid.hasRoom {s : Storage α} (h : s.IsValid) (few : s.size < UInt32.size / 2)
    (threshold : Nat) : s.HasRoom threshold := by
  cases s with
  | linear entries =>
    change entries.length < UInt32.size / 2 at few
    show entries.length < max threshold UInt32.size
    omega
  | hashed t =>
    have compact : t.entries.size ≤ t.live + max t.live 32 := h.2
    change t.live < UInt32.size / 2 at few
    show t.entries.size < UInt32.size
    rw [UInt32.size] at few ⊢
    omega

theorem hasRoom_linear (entries : List (Entry α)) :
    (linear entries).HasRoom (entries.length + 1) := by
  show entries.length < max (entries.length + 1) UInt32.size
  omega

theorem write_of_hasRoom {s : Storage α} {threshold : Nat} (room : s.HasRoom threshold)
    (key : String) (value : α) : s.write threshold key value = s.insert threshold key value :=
  if_pos room

theorem IsValid.insert {s : Storage α} (h : s.IsValid) {threshold : Nat}
    (room : s.HasRoom threshold) (key : String) (value : α) :
    (s.insert threshold key value).2.IsValid := by
  cases s with
  | linear entries =>
    rw [Storage.insert]
    cases found : find? key entries with
    | some e => exact nodup_overwrite key value h
    | none =>
      dsimp only
      split
      · exact nodup_snoc value h found
      · next ge =>
        have few : entries.length < UInt32.size := by
          rw [HasRoom] at room
          omega
        have valid := isValid_ofEntries (Nat.le_of_lt few) h
        exact ⟨valid.1.insert (by rw [Hashed.size_entries_ofEntries]; exact few) key value,
          valid.2.insert valid.1.toCounted key value⟩
  | hashed t => exact ⟨h.1.insert room key value, h.2.insert h.1.toCounted key value⟩

theorem IsValid.write {s : Storage α} (h : s.IsValid) (threshold : Nat) (key : String)
    (value : α) : (s.write threshold key value).2.IsValid := by
  rw [Storage.write]
  split
  · next room => exact h.insert room key value
  · exact IsValid.insert (s := linear s.entries) h.nodup (hasRoom_linear _) key value

theorem IsValid.erase {s : Storage α} (h : s.IsValid) (key : String) :
    (s.erase key).2.IsValid := by
  cases s with
  | linear entries => exact nodup_eraseP key h
  | hashed t => exact ⟨h.1.erase key, h.2.erase h.1.toCounted key⟩

/-! ## The operations on the entries in order -/

theorem IsValid.get?_eq {s : Storage α} (h : s.IsValid) (key : String) :
    s.get? key = (find? key s.entries).map (·.value) := by
  cases s with
  | linear entries => rfl
  | hashed t => exact h.1.get?_eq key

theorem IsValid.fst_insert {s : Storage α} (h : s.IsValid) (threshold : Nat) (key : String)
    (value : α) :
    (s.insert threshold key value).1 = (find? key s.entries).map (·.value) := by
  cases s with
  | linear entries =>
    rw [Storage.insert, Storage.entries]
    cases found : find? key entries with
    | some e => rfl
    | none => dsimp only; split <;> rfl
  | hashed t => exact h.1.fst_insert key value

theorem IsValid.entries_insert_of_some {s : Storage α} (h : s.IsValid) (threshold : Nat)
    {key : String} (value : α) {e : Entry α} (found : find? key s.entries = some e) :
    (s.insert threshold key value).2.entries = overwrite key value s.entries := by
  cases s with
  | linear entries =>
    rw [Storage.entries] at found
    rw [Storage.insert, found]; rfl
  | hashed t => exact h.1.toList_insert_of_some value found

theorem IsValid.entries_insert_of_none {s : Storage α} (h : s.IsValid) {threshold : Nat}
    (room : s.HasRoom threshold) {key : String} (value : α) (absent : find? key s.entries = none) :
    (s.insert threshold key value).2.entries = s.entries ++ [⟨key, value⟩] := by
  cases s with
  | linear entries =>
    rw [Storage.entries] at absent
    rw [Storage.insert, absent]
    dsimp only
    split
    · rfl
    · next ge =>
      have valid := isValid_ofEntries (by rw [HasRoom] at room; omega) h
      have same : (Hashed.ofEntries entries).toList = entries := Hashed.toList_build _ _
      show ((Hashed.ofEntries entries).insert key value).2.toList = entries ++ [⟨key, value⟩]
      rw [valid.1.toList_insert_of_none value (same.symm ▸ absent), same]
  | hashed t => exact h.1.toList_insert_of_none value absent

theorem IsValid.fst_write {s : Storage α} (h : s.IsValid) (threshold : Nat) (key : String)
    (value : α) : (s.write threshold key value).1 = (find? key s.entries).map (·.value) := by
  rw [Storage.write]
  split
  · exact h.fst_insert threshold key value
  · exact IsValid.fst_insert (s := linear s.entries) h.nodup _ key value

theorem IsValid.entries_write_of_some {s : Storage α} (h : s.IsValid) (threshold : Nat)
    {key : String} (value : α) {e : Entry α} (found : find? key s.entries = some e) :
    (s.write threshold key value).2.entries = overwrite key value s.entries := by
  rw [Storage.write]
  split
  · exact h.entries_insert_of_some threshold value found
  · exact IsValid.entries_insert_of_some (s := linear s.entries) h.nodup _ value found

theorem IsValid.entries_write_of_none {s : Storage α} (h : s.IsValid) (threshold : Nat)
    {key : String} (value : α) (absent : find? key s.entries = none) :
    (s.write threshold key value).2.entries = s.entries ++ [⟨key, value⟩] := by
  rw [Storage.write]
  split
  · next room => exact h.entries_insert_of_none room value absent
  · exact IsValid.entries_insert_of_none (s := linear s.entries) h.nodup (hasRoom_linear _) value
      absent

theorem IsValid.fst_erase {s : Storage α} (h : s.IsValid) (key : String) :
    (s.erase key).1 = (find? key s.entries).map (·.value) := by
  cases s with
  | linear entries => rfl
  | hashed t => exact h.1.fst_erase key

theorem IsValid.entries_erase {s : Storage α} (h : s.IsValid) (key : String) :
    (s.erase key).2.entries = s.entries.eraseP (·.key == key) := by
  cases s with
  | linear entries => rfl
  | hashed t => exact h.1.toList_erase key

end Storage

end ValueMachine.Table
