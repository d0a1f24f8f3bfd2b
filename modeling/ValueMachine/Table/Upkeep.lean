import ValueMachine.Table.Sound

/-!
# Upkeep of hashed tables

Writing and removing keep the counts of a table right and its holes few. As long as positions fit
they keep it sound too, and do to its entries what is done to a list.

Results:
* `Counted.insert`, `Counted.erase`: every operation counts rightly;
* `Sound.insert`, `Sound.erase`: every operation gives a sound table;
* `IsCompact.insert`, `IsCompact.erase`: no operation leaves too many holes;
* `Sound.lookup_reserve`: the second search of a write does not find the key either;
* `Sound.get?_eq`, `Sound.fst_insert`, `Sound.toList_insert_of_some`, `Sound.toList_insert_of_none`,
  `Sound.fst_erase`, `Sound.toList_erase`: the operations on the entries in order.
-/

namespace ValueMachine.Table.Hashed

variable {α : Type}

/-! ## Making room -/

theorem counted_rebuild {t : Hashed α} (h : t.Counted) {capacity : Nat}
    (power : capacity.isPowerOfTwo) (le : t.slots.size ≤ capacity) :
    (t.rebuild capacity).Counted := by
  have := h.minCapacity_le
  have := h.load
  exact counted_build power (by omega) (by rw [h.length_toList]; omega)

theorem sound_rebuild {t : Hashed α} (h : t.Sound) {capacity : Nat} (power : capacity.isPowerOfTwo)
    (le : t.slots.size ≤ capacity) : (t.rebuild capacity).Sound := by
  have := h.minCapacity_le
  have := h.load
  exact sound_build power (by omega) (by rw [h.length_toList]; omega)
    (Nat.le_trans t.length_toList_le h.fits) h.nodup

theorem toList_rebuild (t : Hashed α) (capacity : Nat) : (t.rebuild capacity).toList = t.toList :=
  toList_build capacity t.toList

theorem Counted.reserve {t : Hashed α} (h : t.Counted) : t.reserve.Counted := by
  rw [Hashed.reserve]
  split
  · exact counted_rebuild h (Nat.isPowerOfTwo_mul_two_of_isPowerOfTwo h.isPowerOfTwo) (by omega)
  · exact h

theorem Sound.reserve {t : Hashed α} (h : t.Sound) : t.reserve.Sound := by
  rw [Hashed.reserve]
  split
  · exact sound_rebuild h (Nat.isPowerOfTwo_mul_two_of_isPowerOfTwo h.isPowerOfTwo) (by omega)
  · exact h

theorem toList_reserve (t : Hashed α) : t.reserve.toList = t.toList := by
  rw [Hashed.reserve]
  split
  · exact toList_rebuild t _
  · rfl

theorem size_entries_reserve_le (t : Hashed α) : t.reserve.entries.size ≤ t.entries.size := by
  rw [Hashed.reserve]
  split
  · rw [rebuild, size_entries_build]
    exact t.length_toList_le
  · exact Nat.le_refl _

/-- There is room for one more slot in use. -/
theorem Counted.room_reserve {t : Hashed α} (h : t.Counted) :
    (t.reserve.live + t.reserve.tombstones + 1) * 4 ≤ t.reserve.slots.size * 3 := by
  have := h.minCapacity_le
  have := h.load
  rw [Hashed.reserve]
  split
  · have live : (t.rebuild (t.slots.size * 2)).live = t.live := h.length_toList
    have tombstones : (t.rebuild (t.slots.size * 2)).tombstones = 0 := rfl
    have size : (t.rebuild (t.slots.size * 2)).slots.size = t.slots.size * 2 :=
      size_slots_build _ _
    rw [live, tombstones, size]
    rw [minCapacity] at *
    omega
  · omega

/-- The search after making room finds the key no more than the one before. -/
theorem Sound.lookup_reserve {t : Hashed α} (h : t.Sound) {key : String} {slot : Nat}
    (eq : t.lookup key = .vacant slot) : ∃ slot', t.reserve.lookup key = .vacant slot' := by
  refine h.reserve.lookup_of_absent fun {index entry} held => ?_
  obtain ⟨index', held'⟩ := mem_toList.mp (toList_reserve t ▸ mem_toList.mpr ⟨index, held⟩)
  exact (h.of_lookup_vacant eq).2 held'

/-! ## Writing -/

theorem slots_append (t : Hashed α) (slot : Nat) (key : String) (value : α) :
    (t.append slot key value).slots =
      t.slots.setIfInBounds slot (.full (.ofNat t.entries.size)) := rfl

theorem entries_append (t : Hashed α) (slot : Nat) (key : String) (value : α) :
    (t.append slot key value).entries = t.entries.push (some ⟨key, value⟩) := rfl

theorem live_append (t : Hashed α) (slot : Nat) (key : String) (value : α) :
    (t.append slot key value).live = t.live + 1 := rfl

theorem toList_append (t : Hashed α) (slot : Nat) (key : String) (value : α) :
    (t.append slot key value).toList = t.toList ++ [⟨key, value⟩] := by
  rw [toList, entries_append, Array.toList_push, List.filterMap_append]
  rfl

/-- A slot that gets a position was empty or a tombstone, which then no longer counts. -/
theorem tombstones_append {t : Hashed α} {slot : Nat} (lt : slot < t.slots.size)
    (notFull : (t.slots.getD slot .empty).position? = none)
    (count : t.slots.countP isTombstone = t.tombstones) (key : String) (value : α) :
    (t.append slot key value).slots.countP isTombstone = (t.append slot key value).tombstones ∧
      (t.append slot key value).tombstones ≤ t.tombstones := by
  have := countP_setIfInBounds isTombstone (.full (.ofNat t.entries.size)) .empty lt
  rw [slots_append]
  cases hs : t.slots.getD slot .empty with
  | empty =>
    have eq : (t.append slot key value).tombstones = t.tombstones := by simp [append, hs]
    rw [hs] at this
    simp [isTombstone] at this
    omega
  | tombstone =>
    have eq : (t.append slot key value).tombstones = t.tombstones - 1 := by simp [append, hs]
    rw [hs] at this
    simp [isTombstone] at this
    omega
  | full position =>
    rw [hs] at notFull
    cases notFull

theorem Counted.append {t : Hashed α} (h : t.Counted)
    (room : (t.live + t.tombstones + 1) * 4 ≤ t.slots.size * 3) {key : String} {slot : Nat}
    (vacant : IsVacant t.slots (home t.slots.size key) slot) (value : α) :
    (t.append slot key value).Counted := by
  have lt := vacant.reaches.lt_size h.size_pos
  obtain ⟨count, le⟩ := tombstones_append lt vacant.notFull h.countP_isTombstone key value
  refine ⟨?_, ?_, ?_, count, ?_, ?_⟩
  · rw [slots_append, Array.size_setIfInBounds]; exact h.isPowerOfTwo
  · rw [slots_append, Array.size_setIfInBounds]; exact h.minCapacity_le
  · have := countP_setIfInBounds Slot.isFull (.full (.ofNat t.entries.size)) .empty lt
    rw [Slot.position?_eq_none.mp vacant.notFull, h.countP_isFull] at this
    simpa [slots_append, live_append, Slot.isFull] using this
  · rw [entries_append, live_append, Array.countP_push, h.countP_isSome]; rfl
  · rw [slots_append, live_append, Array.size_setIfInBounds]; omega

theorem Sound.append {t : Hashed α} (h : t.Sound)
    (room : (t.live + t.tombstones + 1) * 4 ≤ t.slots.size * 3)
    (fits : t.entries.size < UInt32.size)
    {key : String} {slot : Nat} (vacant : IsVacant t.slots (home t.slots.size key) slot)
    (absent : ∀ {index entry}, t.entries.getD index none = some entry → entry.key ≠ key)
    (value : α) : (t.append slot key value).Sound := by
  have read : ∀ i, (t.append slot key value).entries.getD i none =
      if i = t.entries.size then some ⟨key, value⟩ else t.entries.getD i none := by
    intro i
    rw [entries_append, getD_push]
  refine ⟨h.toCounted.append room vacant value, ?_, ?_, ?_⟩
  · rw [entries_append, Array.size_push]; exact fits
  · exact h.indexes.put h.size_pos vacant (getD_of_size_le _ (Nat.le_refl _)) fits read
  · intro i j e e' hi hj eq
    rw [read] at hi hj
    split at hi <;> split at hj
    · next hi' hj' => rw [hi', hj']
    · cases hi; exact absurd eq.symm (absent hj)
    · cases hj; exact absurd eq (absent hi)
    · exact h.distinct hi hj eq

/-- What writing does: either an entry with the key is found, which gets the value, or a new entry
goes to the end. When a position was cut, the second search may find what the first did not. -/
theorem Counted.insert_cases {t : Hashed α} (h : t.Counted) (key : String) (value : α) :
    (∃ index entry, t.entries.getD index none = some entry ∧ entry.key = key ∧
      t.insert key value = (some entry.value,
        { t with entries := t.entries.setIfInBounds index (some ⟨key, value⟩) })) ∨
    (∃ slot, t.reserve.lookup key = .vacant slot ∧
      t.insert key value = (none, t.reserve.append slot key value)) ∨
    t.insert key value = (none, t.reserve) := by
  cases eq : t.lookup key with
  | found slot index =>
    obtain ⟨_, entry, held, key_eq⟩ := h.of_lookup_found eq
    exact .inl ⟨index, entry, held, key_eq, by simp [Hashed.insert, eq, held]⟩
  | vacant slot =>
    cases eq' : t.reserve.lookup key with
    | vacant slot' => exact .inr (.inl ⟨slot', rfl, by simp [Hashed.insert, eq, eq']⟩)
    | found slot' index => exact .inr (.inr (by simp [Hashed.insert, eq, eq']))

/-- What writing to a sound table does: either the key has an entry, which gets the value, or it has
none and a new entry goes to the end. -/
theorem Sound.insert_cases {t : Hashed α} (h : t.Sound) (key : String) (value : α) :
    (∃ index entry, t.entries.getD index none = some entry ∧ entry.key = key ∧
      t.insert key value = (some entry.value,
        { t with entries := t.entries.setIfInBounds index (some ⟨key, value⟩) })) ∨
    ((∀ {index entry}, t.entries.getD index none = some entry → entry.key ≠ key) ∧
      ∃ slot, t.reserve.lookup key = .vacant slot ∧
        t.insert key value = (none, t.reserve.append slot key value)) := by
  cases eq : t.lookup key with
  | found slot index =>
    obtain ⟨_, entry, held, key_eq⟩ := h.of_lookup_found eq
    exact .inl ⟨index, entry, held, key_eq, by simp [Hashed.insert, eq, held]⟩
  | vacant slot =>
    obtain ⟨slot', eq'⟩ := h.lookup_reserve eq
    exact .inr ⟨(h.of_lookup_vacant eq).2, slot', eq', by simp [Hashed.insert, eq, eq']⟩

/-- Reading after an entry has been replaced. -/
theorem getD_replace {entries : Array (Option (Entry α))} {index : Nat} {e : Entry α}
    (held : entries.getD index none = some e) (e' : Option (Entry α)) (i : Nat) :
    (entries.setIfInBounds index e').getD i none = if i = index then e' else entries.getD i none := by
  have lt : index < entries.size := lt_size_of_getD_ne (d := none) (by rw [held]; simp)
  rw [getD_setIfInBounds]
  by_cases hi : i = index
  · rw [if_pos ⟨hi.symm, lt⟩, if_pos hi]
  · rw [if_neg fun h => hi h.1.symm, if_neg hi]

theorem Counted.replace {t : Hashed α} (h : t.Counted) {index : Nat} {e : Entry α}
    (held : t.entries.getD index none = some e) (e' : Entry α) :
    Counted { t with entries := t.entries.setIfInBounds index (some e') } := by
  have lt : index < t.entries.size := lt_size_of_getD_ne (d := none) (by rw [held]; simp)
  refine ⟨h.isPowerOfTwo, h.minCapacity_le, h.countP_isFull, h.countP_isTombstone, ?_, h.load⟩
  have := countP_setIfInBounds Option.isSome (some e') none lt
  rw [held] at this
  simpa [h.countP_isSome] using this

theorem Sound.replace {t : Hashed α} (h : t.Sound) {index : Nat} {e e' : Entry α}
    (held : t.entries.getD index none = some e) (key : e'.key = e.key) :
    Sound { t with entries := t.entries.setIfInBounds index (some e') } := by
  have read := getD_replace held (some e')
  -- the entry at a position has the key that it had before
  have same : ∀ {i x}, (t.entries.setIfInBounds index (some e')).getD i none = some x →
      ∃ y, t.entries.getD i none = some y ∧ x.key = y.key := by
    intro i x hx
    rw [read] at hx
    split at hx
    · next hi => cases hx; exact ⟨e, hi ▸ held, key⟩
    · exact ⟨x, hx, rfl⟩
  refine ⟨h.toCounted.replace held e', ?_, h.indexes.overwrite held key read, ?_⟩
  · rw [Array.size_setIfInBounds]; exact h.fits
  · intro i j x x' hx hx' eq
    obtain ⟨y, hy, ey⟩ := same hx
    obtain ⟨y', hy', ey'⟩ := same hx'
    exact h.distinct hy hy' (by rw [← ey, ← ey', eq])

theorem Counted.insert {t : Hashed α} (h : t.Counted) (key : String) (value : α) :
    (t.insert key value).2.Counted := by
  obtain ⟨index, entry, held, _, eq⟩ | ⟨slot, eq', eq⟩ | eq := h.insert_cases key value
  · rw [eq]
    exact h.replace held _
  · rw [eq]
    exact h.reserve.append h.room_reserve (h.reserve.isVacant eq') value
  · rw [eq]
    exact h.reserve

theorem Sound.insert {t : Hashed α} (h : t.Sound) (fits : t.entries.size < UInt32.size)
    (key : String) (value : α) : (t.insert key value).2.Sound := by
  obtain ⟨index, entry, held, key_eq, eq⟩ | ⟨absent, slot, eq', eq⟩ := h.insert_cases key value
  · rw [eq]
    exact h.replace held key_eq.symm
  · rw [eq]
    obtain ⟨vacant, absent⟩ := h.reserve.of_lookup_vacant eq'
    exact h.reserve.append h.room_reserve (Nat.lt_of_le_of_lt t.size_entries_reserve_le fits) vacant
      absent value

/-! ## Removing -/

theorem Counted.clear {t : Hashed α} (h : t.Counted) {slot index : Nat} {e : Entry α}
    (full : (t.slots.getD slot .empty).position? = some index)
    (held : t.entries.getD index none = some e) : (t.clear slot index).Counted := by
  have lt : slot < t.slots.size := lt_size_of_position? full
  have lt' : index < t.entries.size := lt_size_of_getD_ne (d := none) (by rw [held]; simp)
  have isFull := countP_setIfInBounds Slot.isFull .tombstone .empty lt
  have isTombstone := countP_setIfInBounds Hashed.isTombstone .tombstone .empty lt
  have isSome := countP_setIfInBounds Option.isSome none none lt'
  obtain ⟨position, at_slot⟩ : ∃ position, t.slots.getD slot .empty = .full position := by
    cases hs : t.slots.getD slot .empty with
    | full position => exact ⟨position, rfl⟩
    | _ => rw [hs] at full; cases full
  rw [at_slot, h.countP_isFull] at isFull
  rw [at_slot, h.countP_isTombstone] at isTombstone
  rw [held, h.countP_isSome] at isSome
  simp only [Slot.isFull, if_true, Bool.false_eq_true, if_false] at isFull
  simp only [Hashed.isTombstone, if_true, Bool.false_eq_true, if_false] at isTombstone
  simp only [Option.isSome, if_true, Bool.false_eq_true, if_false] at isSome
  refine ⟨?_, ?_, ?_, ?_, ?_, ?_⟩
  · simp only [Hashed.clear, Array.size_setIfInBounds]; exact h.isPowerOfTwo
  · simp only [Hashed.clear, Array.size_setIfInBounds]; exact h.minCapacity_le
  · simp only [Hashed.clear]; omega
  · simp only [Hashed.clear]; omega
  · simp only [Hashed.clear]; omega
  · have := h.load
    simp only [Hashed.clear, Array.size_setIfInBounds]; omega

theorem Sound.clear {t : Hashed α} (h : t.Sound) {slot index : Nat} {e : Entry α}
    (full : (t.slots.getD slot .empty).position? = some index)
    (held : t.entries.getD index none = some e) : (t.clear slot index).Sound := by
  have read := getD_replace held none
  refine ⟨h.toCounted.clear full held, ?_, h.indexes.clear full read, ?_⟩
  · simp only [Hashed.clear, Array.size_setIfInBounds]; exact h.fits
  · intro i j x y hx hy eq
    simp only [Hashed.clear] at hx hy
    rw [read] at hx hy
    split at hx
    · cases hx
    · split at hy
      · cases hy
      · exact h.distinct hx hy eq

theorem Counted.compact {t : Hashed α} (h : t.Counted) : t.compact.Counted := by
  rw [Hashed.compact]
  split
  · exact counted_rebuild h h.isPowerOfTwo (Nat.le_refl _)
  · exact h

theorem Sound.compact {t : Hashed α} (h : t.Sound) : t.compact.Sound := by
  rw [Hashed.compact]
  split
  · exact sound_rebuild h h.isPowerOfTwo (Nat.le_refl _)
  · exact h

theorem toList_compact (t : Hashed α) : t.compact.toList = t.toList := by
  rw [Hashed.compact]
  split
  · exact toList_rebuild t _
  · rfl

/-- What removing does: either an entry with the key is found, which goes, or nothing happens. -/
theorem Counted.erase_cases {t : Hashed α} (h : t.Counted) (key : String) :
    (∃ slot index entry, (t.slots.getD slot .empty).position? = some index ∧
      t.entries.getD index none = some entry ∧ entry.key = key ∧
      t.erase key = (some entry.value, (t.clear slot index).compact)) ∨
    (∃ slot, t.lookup key = .vacant slot) ∧ t.erase key = (none, t) := by
  cases eq : t.lookup key with
  | found slot index =>
    obtain ⟨full, entry, held, key_eq⟩ := h.of_lookup_found eq
    exact .inl ⟨slot, index, entry, full, held, key_eq, by simp [Hashed.erase, eq, held]⟩
  | vacant slot => exact .inr ⟨⟨slot, rfl⟩, by simp [Hashed.erase, eq]⟩

/-- What removing from a sound table does: either the key has an entry, which goes, or it has none
and nothing happens. -/
theorem Sound.erase_cases {t : Hashed α} (h : t.Sound) (key : String) :
    (∃ slot index entry, (t.slots.getD slot .empty).position? = some index ∧
      t.entries.getD index none = some entry ∧ entry.key = key ∧
      t.erase key = (some entry.value, (t.clear slot index).compact)) ∨
    ((∀ {index entry}, t.entries.getD index none = some entry → entry.key ≠ key) ∧
      t.erase key = (none, t)) := by
  obtain found | ⟨⟨slot, vacant⟩, eq⟩ := h.toCounted.erase_cases key
  · exact .inl found
  · exact .inr ⟨(h.of_lookup_vacant vacant).2, eq⟩

theorem Counted.erase {t : Hashed α} (h : t.Counted) (key : String) :
    (t.erase key).2.Counted := by
  obtain ⟨slot, index, entry, full, held, _, eq⟩ | ⟨_, eq⟩ := h.erase_cases key
  · rw [eq]
    exact (h.clear full held).compact
  · rw [eq]; exact h

theorem Sound.erase {t : Hashed α} (h : t.Sound) (key : String) : (t.erase key).2.Sound := by
  obtain ⟨slot, index, entry, full, held, _, eq⟩ | ⟨_, eq⟩ := h.erase_cases key
  · rw [eq]
    exact (h.clear full held).compact
  · rw [eq]; exact h

/-! ## Holes -/

theorem IsCompact.reserve {t : Hashed α} (compact : t.IsCompact) : t.reserve.IsCompact := by
  rw [Hashed.reserve]
  split
  · exact isCompact_build _ _
  · exact compact

theorem IsCompact.insert {t : Hashed α} (compact : t.IsCompact) (h : t.Counted) (key : String)
    (value : α) : (t.insert key value).2.IsCompact := by
  have reserved := compact.reserve
  obtain ⟨index, entry, _, _, eq⟩ | ⟨slot, _, eq⟩ | eq := h.insert_cases key value
  · rw [eq, IsCompact, Array.size_setIfInBounds]; exact compact
  · rw [IsCompact] at reserved
    rw [eq, IsCompact, entries_append, live_append, Array.size_push]
    omega
  · rw [eq]; exact reserved

theorem IsCompact.erase {t : Hashed α} (compact : t.IsCompact) (h : t.Counted) (key : String) :
    (t.erase key).2.IsCompact := by
  obtain ⟨slot, index, entry, _, _, _, eq⟩ | ⟨_, eq⟩ := h.erase_cases key
  · rw [eq]
    show (t.clear slot index).compact.IsCompact
    rw [Hashed.compact]
    split
    · exact isCompact_build _ _
    · rw [IsCompact]; omega
  · rw [eq]; exact compact

/-! ## The entries in order -/

theorem filterMap_some_between (before after : List (Option (Entry α))) (e : Entry α) :
    (before ++ some e :: after).filterMap id = before.filterMap id ++ e :: after.filterMap id := by
  simp

theorem filterMap_none_between (before after : List (Option (Entry α))) :
    (before ++ none :: after).filterMap id = before.filterMap id ++ after.filterMap id := by
  simp

/-- Writing to the entry list at an entry. -/
theorem toList_setIfInBounds {entries : Array (Option (Entry α))}
    {before after : List (Option (Entry α))} {e : Entry α}
    (split : entries.toList = before ++ some e :: after) (x : Option (Entry α)) :
    (entries.setIfInBounds before.length x).toList = before ++ x :: after := by
  rw [Array.toList_setIfInBounds, split, List.set_append_right _ _ (Nat.le_refl _), Nat.sub_self,
    List.set_cons_zero]

/-- The entry with a key is the first one of the list with it. -/
theorem Sound.find?_toList {t : Hashed α} (h : t.Sound) {key : String} {index : Nat} {e : Entry α}
    (held : t.entries.getD index none = some e) (eq : e.key = key) :
    find? key t.toList = some e := by
  obtain ⟨before, after, split, _, ne, _⟩ := h.split held
  rw [toList, split, filterMap_some_between]
  exact find?_append_cons (eq ▸ ne) eq

theorem find?_toList_eq_none {t : Hashed α} {key : String}
    (absent : ∀ {index entry}, t.entries.getD index none = some entry → entry.key ≠ key) :
    find? key t.toList = none := by
  rw [find?_eq_none]
  intro e he
  obtain ⟨index, held⟩ := mem_toList.mp he
  exact absent held

theorem Sound.get?_eq {t : Hashed α} (h : t.Sound) (key : String) :
    t.get? key = (find? key t.toList).map (·.value) := by
  rw [get?]
  cases eq : t.lookup key with
  | found slot index =>
    obtain ⟨_, entry, held, key_eq⟩ := h.of_lookup_found eq
    rw [h.find?_toList held key_eq]
    show (t.entries.getD index none).map (·.value) = _
    rw [held]
  | vacant slot => rw [find?_toList_eq_none (h.of_lookup_vacant eq).2]; rfl

theorem Sound.fst_insert {t : Hashed α} (h : t.Sound) (key : String) (value : α) :
    (t.insert key value).1 = (find? key t.toList).map (·.value) := by
  obtain ⟨index, entry, held, key_eq, eq⟩ | ⟨absent, slot, _, eq⟩ := h.insert_cases key value
  · rw [eq, h.find?_toList held key_eq]; rfl
  · rw [eq, find?_toList_eq_none absent]; rfl

theorem Sound.toList_insert_of_some {t : Hashed α} (h : t.Sound) {key : String} (value : α)
    {e : Entry α} (found : find? key t.toList = some e) :
    (t.insert key value).2.toList = overwrite key value t.toList := by
  obtain ⟨index, entry, held, key_eq, eq⟩ | ⟨absent, slot, _, eq⟩ := h.insert_cases key value
  · obtain ⟨before, after, split, rfl, ne, _⟩ := h.split held
    rw [eq]
    show (t.entries.setIfInBounds before.length (some ⟨key, value⟩)).toList.filterMap id = _
    rw [toList, toList_setIfInBounds split, split, filterMap_some_between, filterMap_some_between]
    exact (overwrite_append_cons value (key_eq ▸ ne) key_eq).symm
  · rw [find?_toList_eq_none absent] at found; cases found

theorem Sound.toList_insert_of_none {t : Hashed α} (h : t.Sound) {key : String} (value : α)
    (absent : find? key t.toList = none) :
    (t.insert key value).2.toList = t.toList ++ [⟨key, value⟩] := by
  obtain ⟨index, entry, held, key_eq, eq⟩ | ⟨_, slot, _, eq⟩ := h.insert_cases key value
  · rw [h.find?_toList held key_eq] at absent; cases absent
  · rw [eq]
    show (t.reserve.append slot key value).toList = _
    rw [toList_append, toList_reserve]

theorem Sound.fst_erase {t : Hashed α} (h : t.Sound) (key : String) :
    (t.erase key).1 = (find? key t.toList).map (·.value) := by
  obtain ⟨slot, index, entry, _, held, key_eq, eq⟩ | ⟨absent, eq⟩ := h.erase_cases key
  · rw [eq, h.find?_toList held key_eq]; rfl
  · rw [eq, find?_toList_eq_none absent]; rfl

theorem Sound.toList_erase {t : Hashed α} (h : t.Sound) (key : String) :
    (t.erase key).2.toList = t.toList.eraseP (·.key == key) := by
  obtain ⟨slot, index, entry, _, held, key_eq, eq⟩ | ⟨absent, eq⟩ := h.erase_cases key
  · obtain ⟨before, after, split, rfl, ne, _⟩ := h.split held
    rw [eq]
    show (t.clear slot before.length).compact.toList = _
    rw [toList_compact]
    show (t.entries.setIfInBounds before.length none).toList.filterMap id = _
    rw [toList, toList_setIfInBounds split, split, filterMap_none_between, filterMap_some_between]
    exact (eraseP_append_cons (key_eq ▸ ne) key_eq).symm
  · rw [eq]
    refine (List.eraseP_of_forall_not fun x hx => ?_).symm
    obtain ⟨index, held⟩ := mem_toList.mp hx
    simpa using absent held

end ValueMachine.Table.Hashed
