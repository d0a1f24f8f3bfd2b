import ValueMachine.Table.Indexes

/-!
# Sound tables

The invariants of hashed tables. Slots, live entries and tombstones are counted rightly however long
the entry list is; because of it one slot in four is empty, and searches end. As long as every
position fits a slot, the slots find the entries too, and what searches answer is what the entry
list says.

Results:
* `Counted.walks`, `Counted.answers`: a search ends, with what it has found;
* `counted_ofEntries`, `sound_ofEntries`: new tables;
* `Sound.of_lookup_vacant`: a search of a sound table does not miss an entry;
* `Sound.split`, `Sound.nodup`: the entries in order have distinct keys.
-/

namespace ValueMachine.Table.Hashed

variable {α : Type}

/-- What holds of a table between any two operations. -/
structure Counted (t : Hashed α) : Prop where
  isPowerOfTwo : t.slots.size.isPowerOfTwo
  minCapacity_le : minCapacity ≤ t.slots.size
  countP_isFull : t.slots.countP Slot.isFull = t.live
  countP_isTombstone : t.slots.countP isTombstone = t.tombstones
  countP_isSome : t.entries.countP Option.isSome = t.live
  /-- At most three quarters of the slots are in use. -/
  load : (t.live + t.tombstones) * 4 ≤ t.slots.size * 3

/-- What holds besides as long as no position is cut. -/
structure Sound (t : Hashed α) : Prop extends Counted t where
  /-- Every position fits a slot. -/
  fits : t.entries.size ≤ UInt32.size
  indexes : Indexes t.slots fun index => t.entries.getD index none
  distinct {i j : Nat} {e e' : Entry α} : t.entries.getD i none = some e →
    t.entries.getD j none = some e' → e.key = e'.key → i = j

/-- Holes do not outnumber both the live entries and the least capacity. -/
def IsCompact (t : Hashed α) : Prop := t.entries.size ≤ t.live + max t.live minCapacity

/-! ## Searches -/

theorem Counted.size_pos {t : Hashed α} (h : t.Counted) : 0 < t.slots.size :=
  Nat.lt_of_lt_of_le (by decide) h.minCapacity_le

theorem Counted.exists_empty {t : Hashed α} (h : t.Counted) :
    ∃ slot < t.slots.size, t.slots.getD slot .empty = .empty := by
  apply Hashed.exists_empty
  have := h.load
  have := h.size_pos
  rw [h.countP_isFull, h.countP_isTombstone]
  omega

theorem Counted.walks {t : Hashed α} (h : t.Counted) (key : String) :
    Walks t key (home t.slots.size key) none (t.lookup key) := by
  obtain ⟨slot, hslot, hempty⟩ := h.exists_empty
  exact walks_probe hslot hempty key

theorem Counted.answers {t : Hashed α} (h : t.Counted) (key : String) :
    Answers t key (t.lookup key) := (h.walks key).answers

/-- Where the search finds the key. -/
theorem Counted.of_lookup_found {t : Hashed α} (h : t.Counted) {key : String} {slot index : Nat}
    (eq : t.lookup key = .found slot index) : (t.slots.getD slot .empty).position? = some index ∧
      ∃ entry, t.entries.getD index none = some entry ∧ entry.key = key := by
  have := h.answers key
  rwa [eq] at this

/-- Where the search finds no key, a position can be put. -/
theorem Counted.isVacant {t : Hashed α} (h : t.Counted) {key : String} {slot : Nat}
    (eq : t.lookup key = .vacant slot) : IsVacant t.slots (home t.slots.size key) slot := by
  have := h.answers key
  rw [eq] at this
  exact this.1

/-- Where the search finds no key, no entry has it. -/
theorem Sound.of_lookup_vacant {t : Hashed α} (h : t.Sound) {key : String} {slot : Nat}
    (eq : t.lookup key = .vacant slot) : IsVacant t.slots (home t.slots.size key) slot ∧
      ∀ {index entry}, t.entries.getD index none = some entry → entry.key ≠ key := by
  have := h.answers key
  rw [eq] at this
  refine ⟨this.1, fun {index entry} held key_eq => ?_⟩
  obtain ⟨s, full, reaches⟩ := h.indexes.reached held
  exact this.2 (key_eq ▸ reaches) full held key_eq

/-- A key that no entry has is not found. -/
theorem Sound.lookup_of_absent {t : Hashed α} (h : t.Sound) {key : String}
    (absent : ∀ {index entry}, t.entries.getD index none = some entry → entry.key ≠ key) :
    ∃ slot, t.lookup key = .vacant slot := by
  cases eq : t.lookup key with
  | vacant slot => exact ⟨slot, rfl⟩
  | found slot index =>
    obtain ⟨_, entry, held, key_eq⟩ := h.of_lookup_found eq
    exact absurd key_eq (absent held)

/-! ## Making tables -/

/-- Slots after the given number of positions have been placed. -/
structure Occupied (positions : Nat) (slots : Array Slot) : Prop where
  countP_isFull : slots.countP Slot.isFull = positions
  countP_isTombstone : slots.countP isTombstone = 0

theorem occupied_zero (capacity : Nat) : Occupied 0 (Array.replicate capacity .empty) :=
  ⟨by simp [Array.countP_replicate, Slot.isFull], by simp [Array.countP_replicate, isTombstone]⟩

theorem Occupied.exists_empty {positions : Nat} {slots : Array Slot} (h : Occupied positions slots)
    (lt : positions < slots.size) : ∃ slot < slots.size, slots.getD slot .empty = .empty := by
  apply Hashed.exists_empty
  rw [h.countP_isFull, h.countP_isTombstone]
  omega

/-- The slot at which the next position is placed. -/
theorem Occupied.settles {positions : Nat} {slots : Array Slot} (h : Occupied positions slots)
    (lt : positions < slots.size) (key : String) :
    Settles slots (home slots.size key) (firstEmpty slots slots.size (home slots.size key)) := by
  obtain ⟨slot, hslot, hempty⟩ := h.exists_empty lt
  exact settles_firstEmpty hslot hempty (Nat.mod_lt _ (by omega))

/-- Placing one more position, whatever the slot keeps of it. -/
theorem Occupied.succ {positions : Nat} {slots : Array Slot} (h : Occupied positions slots)
    (lt : positions < slots.size) (key : String) (position : UInt32) :
    Occupied (positions + 1) (slots.setIfInBounds
      (firstEmpty slots slots.size (home slots.size key)) (.full position)) := by
  have hhome : home slots.size key < slots.size := Nat.mod_lt _ (by omega)
  have settles := h.settles lt key
  have hfirst := (settles.isVacant hhome).reaches.lt_size (by omega)
  have empty := (settles.reaches_from 0 (by rw [Nat.add_zero, Nat.mod_eq_of_lt hhome])
    (fun i hi => absurd hi (Nat.not_lt_zero i))).2
  refine ⟨?_, ?_⟩
  · have := countP_setIfInBounds Slot.isFull (.full position) .empty hfirst
    rw [empty, h.countP_isFull] at this
    simpa [Slot.isFull] using this
  · have := countP_setIfInBounds isTombstone (.full position) .empty hfirst
    rw [empty, h.countP_isTombstone] at this
    simpa [isTombstone] using this

theorem size_place (entries : List (Entry α)) :
    ∀ (slots : Array Slot) (index : Nat), (place slots index entries).size = slots.size := by
  induction entries with
  | nil => intro slots index; rfl
  | cons e rest ih => intro slots index; rw [place, ih, Array.size_setIfInBounds]

theorem occupied_place (rest : List (Entry α)) :
    ∀ (positions : Nat) (slots : Array Slot), Occupied positions slots →
      positions + rest.length ≤ slots.size →
      Occupied (positions + rest.length) (place slots positions rest) := by
  induction rest with
  | nil => intro positions slots h _; exact h
  | cons e rest ih =>
    intro positions slots h le
    rw [List.length_cons] at le ⊢
    rw [← Nat.add_assoc, Nat.add_right_comm, place]
    exact ih _ _ (h.succ (by omega) e.key _) (by rw [Array.size_setIfInBounds]; omega)

/-- The slots after the first entries of a list have been placed. -/
structure Placed (entries : List (Entry α)) (slots : Array Slot) : Prop extends
    Occupied entries.length slots where
  indexes : Indexes slots fun index => entries[index]?

theorem placed_nil (capacity : Nat) :
    Placed ([] : List (Entry α)) (Array.replicate capacity .empty) := by
  have read : ∀ slot, (Array.replicate capacity Slot.empty).getD slot .empty = .empty := by
    intro slot
    simp only [Array.getD_eq_getD_getElem?, Array.getElem?_replicate]
    split <;> rfl
  refine ⟨occupied_zero capacity, ⟨?_, ?_, ?_⟩⟩
  · intro slot index full
    rw [read] at full; cases full
  · intro index e he
    simp at he
  · intro slot slot' index full
    rw [read] at full; cases full

/-- Placing one more entry. -/
theorem Placed.snoc {entries : List (Entry α)} {slots : Array Slot} (h : Placed entries slots)
    (lt : entries.length < slots.size) (fits : entries.length < UInt32.size) (e : Entry α) :
    Placed (entries ++ [e]) (slots.setIfInBounds
      (firstEmpty slots slots.size (home slots.size e.key)) (.full (.ofNat entries.length))) := by
  have vacant := (h.settles lt e.key).isVacant (Nat.mod_lt _ (by omega))
  refine ⟨?_, h.indexes.put (by omega) vacant (by simp) fits ?_⟩
  · rw [List.length_append]
    exact h.succ lt e.key _
  · intro i
    rcases Nat.lt_trichotomy i entries.length with lt | rfl | gt
    · rw [List.getElem?_append_left lt, if_neg (Nat.ne_of_lt lt)]
    · simp
    · rw [if_neg (Nat.ne_of_gt gt), List.getElem?_eq_none (by simp; omega),
        List.getElem?_eq_none (by omega)]

theorem placed_place (rest : List (Entry α)) :
    ∀ (before : List (Entry α)) (slots : Array Slot), Placed before slots →
      before.length + rest.length ≤ slots.size → before.length + rest.length ≤ UInt32.size →
      Placed (before ++ rest) (place slots before.length rest) := by
  induction rest with
  | nil => intro before slots h _ _; rw [List.append_nil]; exact h
  | cons e rest ih =>
    intro before slots h le fits
    rw [List.length_cons] at le fits
    have := ih (before ++ [e]) _ (h.snoc (by omega) (by omega) e) (by simp; omega) (by simp; omega)
    rwa [List.append_assoc, List.singleton_append, List.length_append] at this

theorem size_slots_build (capacity : Nat) (entries : List (Entry α)) :
    (build capacity entries).slots.size = capacity := by
  rw [build, size_place, Array.size_replicate]

theorem size_entries_build (capacity : Nat) (entries : List (Entry α)) :
    (build capacity entries).entries.size = entries.length := by
  simp [build]

theorem toList_build (capacity : Nat) (entries : List (Entry α)) :
    (build capacity entries).toList = entries := by
  simp [build, toList, List.filterMap_map]

/-- A table with room for a quarter more counts its entries. -/
theorem counted_build {capacity : Nat} {entries : List (Entry α)} (power : capacity.isPowerOfTwo)
    (le : minCapacity ≤ capacity) (room : entries.length * 4 ≤ capacity * 3) :
    (build capacity entries).Counted := by
  have occupied := occupied_place entries 0 _ (occupied_zero capacity)
    (by rw [Array.size_replicate]; omega)
  rw [Nat.zero_add] at occupied
  refine ⟨?_, ?_, occupied.countP_isFull, occupied.countP_isTombstone, ?_, ?_⟩
  · rw [size_slots_build]; exact power
  · rw [size_slots_build]; exact le
  · simp [build, List.countP_map]
  · rw [size_slots_build]; exact room

/-- It is sound when its entries have distinct keys and positions that fit. -/
theorem sound_build {capacity : Nat} {entries : List (Entry α)} (power : capacity.isPowerOfTwo)
    (le : minCapacity ≤ capacity) (room : entries.length * 4 ≤ capacity * 3)
    (fits : entries.length ≤ UInt32.size) (nodup : (entries.map (·.key)).Nodup) :
    (build capacity entries).Sound := by
  have placed := placed_place entries [] (Array.replicate capacity .empty) (placed_nil capacity)
    (by rw [Array.size_replicate, List.length_nil]; omega) (by rw [List.length_nil]; omega)
  rw [List.nil_append, List.length_nil] at placed
  have read : ∀ index, (build capacity entries).entries.getD index none = entries[index]? := by
    intro index
    simp only [build, Array.getD_eq_getD_getElem?, List.getElem?_toArray, List.getElem?_map]
    cases entries[index]? <;> rfl
  refine ⟨counted_build power le room, ?_, ?_, ?_⟩
  · rw [size_entries_build]; exact fits
  · simp only [read]
    exact placed.indexes
  · intro i j e e' hi hj eq
    rw [read] at hi hj
    obtain ⟨hi', rfl⟩ := List.getElem?_eq_some_iff.mp hi
    obtain ⟨hj', rfl⟩ := List.getElem?_eq_some_iff.mp hj
    have inj := List.pairwise_iff_getElem.mp nodup
    simp only [List.length_map, List.getElem_map] at inj
    rcases Nat.lt_trichotomy i j with lt | eq' | gt
    · exact absurd eq (inj i j hi' hj' lt)
    · exact eq'
    · exact absurd eq.symm (inj j i hj' hi' gt)

theorem isCompact_build (capacity : Nat) (entries : List (Entry α)) :
    (build capacity entries).IsCompact := by
  simp [IsCompact, build]

theorem le_leastPower (n : Nat) : n ≤ leastPower n := by
  rw [leastPower]
  split
  · assumption
  · have : n - 1 < Nat.pow 2 ((n - 1).log2 + 1) := Nat.lt_log2_self
    omega

theorem isPowerOfTwo_leastPower (n : Nat) : (leastPower n).isPowerOfTwo := by
  rw [leastPower]
  split
  · exact ⟨0, rfl⟩
  · exact ⟨_, rfl⟩

theorem size_entries_ofEntries (entries : List (Entry α)) :
    (ofEntries entries).entries.size = entries.length := size_entries_build _ _

theorem counted_ofEntries (entries : List (Entry α)) : (ofEntries entries).Counted := by
  have le := le_leastPower (max (entries.length * 2) minCapacity)
  exact counted_build (isPowerOfTwo_leastPower _) (by omega) (by omega)

theorem sound_ofEntries {entries : List (Entry α)} (fits : entries.length ≤ UInt32.size)
    (nodup : (entries.map (·.key)).Nodup) : (ofEntries entries).Sound := by
  have le := le_leastPower (max (entries.length * 2) minCapacity)
  exact sound_build (isPowerOfTwo_leastPower _) (by omega) (by omega) fits nodup

/-! ## The entries in order -/

theorem toList_split {t : Hashed α} {index : Nat} {e : Entry α}
    (held : t.entries.getD index none = some e) : ∃ before after : List (Option (Entry α)),
      t.entries.toList = before ++ some e :: after ∧ before.length = index := by
  have lt : index < t.entries.size := lt_size_of_getD_ne (d := none) (by rw [held]; simp)
  have get : t.entries.toList[index] = some e := by
    simpa [Array.getD_eq_getD_getElem?, lt] using held
  refine ⟨t.entries.toList.take index, t.entries.toList.drop (index + 1), ?_, by simp; omega⟩
  rw [← get, List.getElem_cons_drop, List.take_append_drop]

theorem mem_toList {t : Hashed α} {e : Entry α} :
    e ∈ t.toList ↔ ∃ index, t.entries.getD index none = some e := by
  rw [toList, List.mem_filterMap]
  constructor
  · rintro ⟨_, mem, rfl⟩
    obtain ⟨index, lt, eq⟩ := List.getElem_of_mem mem
    rw [Array.length_toList] at lt
    rw [Array.getElem_toList] at eq
    exact ⟨index, by simp [Array.getD_eq_getD_getElem?, lt, eq]⟩
  · rintro ⟨index, held⟩
    obtain ⟨before, after, eq, _⟩ := toList_split held
    exact ⟨some e, by rw [eq]; simp, rfl⟩

theorem Counted.length_toList {t : Hashed α} (h : t.Counted) : t.toList.length = t.live := by
  rw [toList, List.length_filterMap_eq_countP, ← h.countP_isSome, ← Array.countP_toList]
  rfl

theorem length_toList_le (t : Hashed α) : t.toList.length ≤ t.entries.size := by
  rw [toList, ← Array.length_toList]
  exact List.length_filterMap_le _ _

/-- Entries around an entry of a sound table have other keys. -/
theorem Sound.split {t : Hashed α} (h : t.Sound) {index : Nat} {e : Entry α}
    (held : t.entries.getD index none = some e) : ∃ before after : List (Option (Entry α)),
      t.entries.toList = before ++ some e :: after ∧ before.length = index ∧
      (∀ x ∈ before.filterMap id, x.key ≠ e.key) ∧ ∀ x ∈ after.filterMap id, x.key ≠ e.key := by
  obtain ⟨before, after, eq, len⟩ := toList_split held
  have read : ∀ j, t.entries.getD j none = (before ++ some e :: after)[j]?.getD none := by
    intro j
    rw [← eq, Array.getElem?_toList, Array.getD_eq_getD_getElem?]
  refine ⟨before, after, eq, len, ?_, ?_⟩
  · intro x hx key_eq
    obtain ⟨_, mem, rfl⟩ := List.mem_filterMap.mp hx
    obtain ⟨j, lt, get⟩ := List.getElem_of_mem mem
    have := h.distinct (i := j)
      (by rw [read, List.getElem?_append_left lt, List.getElem?_eq_getElem lt, get]; rfl) held key_eq
    omega
  · intro x hx key_eq
    obtain ⟨_, mem, rfl⟩ := List.mem_filterMap.mp hx
    obtain ⟨j, lt, get⟩ := List.getElem_of_mem mem
    have := h.distinct (i := before.length + (j + 1))
      (by rw [read, List.getElem?_append_right (by omega)]; simp [get, lt]) held key_eq
    omega

theorem Sound.nodup {t : Hashed α} (h : t.Sound) : (t.toList.map (·.key)).Nodup := by
  -- two entries of the list at different places are two entries of the table
  rw [toList, List.Nodup, List.pairwise_map, List.pairwise_filterMap, List.pairwise_iff_getElem]
  intro i j hi hj lt x hx y hy eq
  rw [Array.length_toList] at hi hj
  rw [Array.getElem_toList] at hx hy
  have := h.distinct (i := i) (j := j) (by simpa [Array.getD_eq_getD_getElem?, hi] using hx)
    (by simpa [Array.getD_eq_getD_getElem?, hj] using hy) eq
  omega

end ValueMachine.Table.Hashed
