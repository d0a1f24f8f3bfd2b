import ValueMachine.Proofs.Table.Requests

/-!
# Tables under churn

Writing and removing over and over does not make a table grow. Its entry list and its slots are as
large as the most entries that it has had at one time ask for, however many have come and gone:
tombstones never outnumber the holes in the entry list, and these are few, so a table that doubles
has live entries enough. Only counters matter for this, so it holds of the program's storages even
when positions are cut.

Results:
* `Slim.insert`, `Slim.erase`: one change of a hashed table;
* `storage_bounded`: any sequence of requests.
-/

namespace ValueMachine

namespace Table

namespace Hashed

variable {α : Type}

/-- The places in the entry list whose entries have been removed. -/
def holes (t : Hashed α) : Nat := t.entries.countP Option.isNone

/-- The size of a table that has had at most `peak` entries at a time. -/
structure Slim (t : Hashed α) (peak : Nat) : Prop where
  live_le : t.live ≤ peak
  /-- Every tombstone has a hole of its own. -/
  filled : t.live + t.tombstones ≤ t.entries.size
  /-- A hole is made by removing, so there are not as many as there were entries, or they are few. -/
  sparse : t.entries.size < t.live + max peak (minCapacity + 1)
  capacity : 3 * t.slots.size < 16 * max peak minCapacity

theorem Slim.mono {t : Hashed α} {peak peak' : Nat} (h : t.Slim peak) (le : peak ≤ peak') :
    t.Slim peak' := by
  have := h.live_le
  have := h.sparse
  have := h.capacity
  exact ⟨by omega, h.filled, by omega, by omega⟩

theorem Counted.live_add_holes {t : Hashed α} (h : t.Counted) :
    t.live + t.holes = t.entries.size := by
  have counts := List.length_eq_countP_add_countP Option.isSome (l := t.entries.toList)
  rw [Array.length_toList, Array.countP_toList, h.countP_isSome] at counts
  rw [counts, holes, ← Array.countP_toList]
  congr 2
  funext e
  cases e <;> rfl

theorem Slim.tombstones_le {t : Hashed α} {peak : Nat} (h : t.Slim peak) (counted : t.Counted) :
    t.tombstones ≤ t.holes := by
  have := counted.live_add_holes
  have := h.filled
  omega

/-! ## New tables -/

theorem slim_build {capacity peak : Nat} {entries : List (Entry α)} (le : entries.length ≤ peak)
    (lt : 3 * capacity < 16 * max peak minCapacity) : (build capacity entries).Slim peak := by
  refine ⟨le, ?_, ?_, by rwa [size_slots_build]⟩
  · rw [size_entries_build]
    exact Nat.le_refl _
  · rw [size_entries_build]
    exact Nat.lt_add_of_pos_right (by rw [minCapacity]; omega)

theorem leastPower_lt {n : Nat} (pos : 0 < n) : leastPower n < 2 * n := by
  rw [leastPower]
  split
  · omega
  · have le : 2 ^ (n - 1).log2 ≤ n - 1 := Nat.log2_self_le (by omega)
    have double : 2 ^ ((n - 1).log2 + 1) = 2 ^ (n - 1).log2 * 2 := Nat.pow_succ ..
    show 2 ^ ((n - 1).log2 + 1) < 2 * n
    omega

theorem slim_ofEntries {peak : Nat} {entries : List (Entry α)} (le : entries.length ≤ peak) :
    (ofEntries entries).Slim peak := by
  have lt := leastPower_lt (n := max (entries.length * 2) minCapacity) (by rw [minCapacity]; omega)
  refine slim_build le ?_
  rw [minCapacity] at lt ⊢
  omega

/-! ## One change -/

/-- A table doubles when the slots in use fill three quarters of it. At most half of these are
tombstones, or there are few. -/
theorem Slim.reserve {t : Hashed α} {peak : Nat} (h : t.Slim peak) (counted : t.Counted) :
    t.reserve.Slim peak := by
  have live_le := h.live_le
  have filled := h.filled
  have sparse := h.sparse
  obtain ⟨exponent, power⟩ := counted.isPowerOfTwo
  rw [Hashed.reserve]
  split
  · next full =>
    refine slim_build (by rw [counted.length_toList]; exact live_le) ?_
    rw [minCapacity] at *
    rcases Nat.lt_or_ge 32 peak with many | few
    · omega
    · -- between 64 and 86 there is no power of two
      have small : exponent < 7 := by
        refine Nat.lt_of_not_le fun le => ?_
        have := Nat.pow_le_pow_right (n := 2) (by decide) le
        omega
      have := Nat.pow_le_pow_right (n := 2) (by decide) (Nat.le_of_lt_succ small)
      omega
  · exact h

theorem Slim.append {t : Hashed α} {peak : Nat} (h : t.Slim peak) (counted : t.Counted)
    {key : String} {slot : Nat} (vacant : IsVacant t.slots (home t.slots.size key) slot)
    (value : α) :
    (t.append slot key value).Slim (max peak (t.append slot key value).live) := by
  have fewer := (tombstones_append (vacant.reaches.lt_size counted.size_pos) vacant.notFull
    counted.countP_isTombstone key value).2
  have live := live_append t slot key value
  have filled := h.filled
  have sparse := h.sparse
  have capacity := h.capacity
  refine ⟨Nat.le_max_right _ _, ?_, ?_, ?_⟩
  · rw [entries_append, Array.size_push]
    omega
  · rw [entries_append, Array.size_push]
    omega
  · rw [slots_append, Array.size_setIfInBounds]
    omega

theorem Slim.insert {t : Hashed α} {peak : Nat} (h : t.Slim peak) (counted : t.Counted)
    (key : String) (value : α) :
    (t.insert key value).2.Slim (max peak (t.insert key value).2.live) := by
  have reserved := h.reserve counted
  obtain ⟨index, entry, _, _, eq⟩ | ⟨slot, vacant, eq⟩ | eq := counted.insert_cases key value
  · rw [eq]
    refine Slim.mono ⟨h.live_le, ?_, ?_, h.capacity⟩ (Nat.le_max_left _ _) <;>
      rw [Array.size_setIfInBounds]
    · exact h.filled
    · exact h.sparse
  · rw [eq]
    exact reserved.append counted.reserve (counted.reserve.isVacant vacant) value
  · rw [eq]
    exact reserved.mono (Nat.le_max_left _ _)

theorem Slim.compact {t : Hashed α} {peak : Nat} (h : t.Slim peak) (counted : t.Counted) :
    t.compact.Slim peak := by
  rw [Hashed.compact]
  split
  · exact slim_build (by rw [counted.length_toList]; exact h.live_le) h.capacity
  · exact h

/-- An entry is live. -/
theorem Counted.live_pos {t : Hashed α} (h : t.Counted) {index : Nat} {e : Entry α}
    (held : t.entries.getD index none = some e) : 0 < t.live := by
  rw [← h.length_toList]
  exact List.length_pos_of_mem (mem_toList.mpr ⟨index, held⟩)

/-- Removing either leaves few holes or rebuilds. -/
theorem Slim.erase {t : Hashed α} {peak : Nat} (h : t.Slim peak) (counted : t.Counted)
    (key : String) : (t.erase key).2.Slim peak := by
  obtain ⟨slot, index, entry, full, held, _, eq⟩ | ⟨_, eq⟩ := counted.erase_cases key
  · rw [eq]
    have cleared := counted.clear full held
    have live := counted.live_pos held
    have live_le := h.live_le
    have filled := h.filled
    have live_clear : (t.clear slot index).live = t.live - 1 := rfl
    have tombstones_clear : (t.clear slot index).tombstones = t.tombstones + 1 := rfl
    have size : (t.clear slot index).entries.size = t.entries.size := Array.size_setIfInBounds
    have slots : (t.clear slot index).slots.size = t.slots.size := Array.size_setIfInBounds
    have capacity := h.capacity
    show (t.clear slot index).compact.Slim peak
    rw [Hashed.compact]
    split
    · refine slim_build (by rw [cleared.length_toList]; omega) ?_
      rw [slots]; exact capacity
    · next few =>
      rw [minCapacity] at few
      refine ⟨by omega, by omega, ?_, by rw [slots]; exact capacity⟩
      rw [minCapacity]
      omega
  · rw [eq]
    exact h

end Hashed

/-! ## Any sequence of requests -/

variable {α : Type}

namespace Storage

/-- The size of a storage that has had at most `peak` entries at a time. -/
def Slim (peak : Nat) : Storage α → Prop
  | linear entries => entries.length ≤ peak
  | hashed t => t.Counted ∧ t.IsCompact ∧ t.Slim peak

theorem Slim.mono {s : Storage α} {peak peak' : Nat} (h : s.Slim peak) (le : peak ≤ peak') :
    s.Slim peak' := by
  cases s with
  | linear entries => exact Nat.le_trans h le
  | hashed t => exact ⟨h.1, h.2.1, h.2.2.mono le⟩

theorem slim_ofEntries {peak : Nat} {entries : List (Entry α)} (le : entries.length ≤ peak) :
    (hashed (Hashed.ofEntries entries)).Slim peak :=
  ⟨Hashed.counted_ofEntries entries, Hashed.isCompact_build _ _, Hashed.slim_ofEntries le⟩

theorem Slim.insert {s : Storage α} {peak : Nat} (h : s.Slim peak) (threshold : Nat)
    (key : String) (value : α) :
    (s.insert threshold key value).2.Slim (max peak (s.insert threshold key value).2.size) := by
  -- a hashed table, whether it was there or has just been made
  have hashed : ∀ {t : Hashed α}, (Storage.hashed t).Slim peak →
      (Storage.hashed (t.insert key value).2).Slim (max peak (t.insert key value).2.live) :=
    fun ⟨counted, compact, slim⟩ =>
      ⟨counted.insert key value, compact.insert counted key value, slim.insert counted key value⟩
  cases s with
  | linear entries =>
    rw [Storage.insert]
    cases find? key entries with
    | some e => exact Nat.le_max_right _ _
    | none =>
      dsimp only
      split
      · exact Nat.le_max_right _ _
      · exact hashed (slim_ofEntries h)
  | hashed t => exact hashed h

theorem Slim.erase {s : Storage α} {peak : Nat} (h : s.Slim peak) (key : String) :
    (s.erase key).2.Slim peak := by
  cases s with
  | linear entries => exact Nat.le_trans (List.eraseP_sublist.length_le) h
  | hashed t =>
    obtain ⟨counted, compact, slim⟩ := h
    exact ⟨counted.erase key, compact.erase counted key, slim.erase counted key⟩

theorem Slim.write {s : Storage α} {peak : Nat} (h : s.Slim peak) (threshold : Nat)
    (key : String) (value : α) :
    (s.write threshold key value).2.Slim (max peak (s.write threshold key value).2.size) := by
  rw [Storage.write]
  split
  · exact h.insert threshold key value
  · rw [Storage.insert]
    cases find? key s.entries with
    | some e => exact Nat.le_max_right _ _
    | none =>
      dsimp only
      rw [if_pos (Nat.lt_succ_self _)]
      exact Nat.le_max_right _ _

theorem slim_serve {s : Storage α} {most : Nat} (request : Request α) (h : s.Slim most) :
    (s.serve request).2.Slim (max most (s.serve request).2.size) := by
  cases request with
  | insert threshold key value => exact h.insert threshold key value
  | remove key => exact (h.erase key).mono (Nat.le_max_left _ _)
  | _ => exact h.mono (Nat.le_max_left _ _)

end Storage

theorem slim_serve {t : Table α} {most : Nat} (request : Request α) (h : t.storage.Slim most) :
    (t.serve request).2.storage.Slim (max most (t.serve request).2.size) := by
  cases request with
  | insert threshold key value => exact h.write threshold key value
  | remove key => exact (h.erase key).mono (Nat.le_max_left _ _)
  | _ => exact h.mono (Nat.le_max_left _ _)

theorem slim_new (hashed : Bool) : (Table.new hashed : Table α).storage.Slim 0 := by
  cases hashed with
  | false => exact Nat.le_refl 0
  | true => exact Storage.slim_ofEntries (Nat.le_refl 0)

/-- The three bounds of a hashed table that has had at most `peak` entries at a time. -/
theorem Storage.Slim.bounds {table : Hashed α} {peak : Nat}
    (h : (Storage.hashed table).Slim (max 0 peak)) :
    table.entries.size ≤ table.live + max table.live 32 ∧
    table.tombstones ≤ table.holes ∧
    3 * table.slots.size < 16 * max peak 32 := by
  rw [Nat.zero_max] at h
  obtain ⟨counted, compact, slim⟩ := h
  exact ⟨compact, slim.tombstones_le counted, slim.capacity⟩

/-- However a table came to be hashed, whatever the thresholds were and however many entries have
come and gone: its entry list has room for its live entries and as many more, or 32, it has no more
tombstones than holes, and its capacity is bounded by the most entries that it has had. For a
`Table` these are the most pairs that the list had which gives the same replies. -/
theorem storage_bounded (hashed : Bool) (requests : List (Request α)) (table : Hashed α) :
    (after Storage.serve (Table.new hashed).storage requests = .hashed table →
      table.entries.size ≤ table.live + max table.live 32 ∧
      table.tombstones ≤ table.holes ∧
      3 * table.slots.size <
        16 * max (peak Storage.serve Storage.size (Table.new hashed : Table α).storage requests)
          32) ∧
    ((after serve (Table.new hashed) requests).storage = .hashed table →
      table.entries.size ≤ table.live + max table.live 32 ∧
      table.tombstones ≤ table.holes ∧
      3 * table.slots.size <
        16 * max (peak Listing.serve List.length ([] : List (String × α)) requests) 32) := by
  refine ⟨fun is => ?_, fun is => ?_⟩
  · have slim := after_of_step (P := Storage.Slim) Storage.Slim.mono Storage.slim_serve requests
      (slim_new hashed : (Table.new hashed : Table α).storage.Slim 0)
    rw [is] at slim
    exact slim.bounds
  · have slim := after_of_step (P := fun most (t : Table α) => t.storage.Slim most)
      Storage.Slim.mono slim_serve requests (slim_new hashed)
    rw [is, peak_eq, toList_new] at slim
    exact slim.bounds

/-- A table that is hashed from its first entry on, which is removed and written again. -/
theorem storage_bounded_rewritten :
    let requests : List (Request Nat) := [.insert 0 "a" 1, .remove "a", .insert 0 "a" 2]
    ∃ table, after Storage.serve (Table.new false : Table Nat).storage requests = .hashed table ∧
      table.entries.size ≤ table.live + max table.live 32 ∧ table.tombstones ≤ table.holes ∧
      3 * table.slots.size <
        16 * max (peak Storage.serve Storage.size (Table.new false : Table Nat).storage requests)
          32 := by
  intro requests
  exact ⟨_, rfl, (storage_bounded false requests _).1 rfl⟩

end Table

end ValueMachine
