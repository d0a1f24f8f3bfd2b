import ValueMachine.Table.Walk

/-!
# Slots that find entries

The slots of a table are right about its entries when each full slot holds the position of an
entry, each entry is reached from its home without an empty slot on the way, and no two slots hold
one position. Putting a position into a vacant slot and leaving a tombstone behind keep this; the
entries themselves may be a list that is being placed or the entry list of a table, so they are
given as a function.

Results:
* `Indexes.put`, `Indexes.clear`, `Indexes.overwrite`: what the three changes of a table keep;
* `exists_empty`: with less than every slot in use, one is empty.
-/

namespace ValueMachine.Table

/-! ## Arrays after a write -/

theorem getD_setIfInBounds {β : Type} (xs : Array β) (i j : Nat) (x d : β) :
    (xs.setIfInBounds i x).getD j d = if i = j ∧ i < xs.size then x else xs.getD j d := by
  simp only [Array.getD_eq_getD_getElem?, Array.getElem?_setIfInBounds]
  by_cases eq : i = j
  · subst eq
    by_cases lt : i < xs.size
    · simp [lt]
    · simp [lt]
  · simp [eq]

theorem getD_of_size_le {β : Type} {xs : Array β} {i : Nat} (d : β) (le : xs.size ≤ i) :
    xs.getD i d = d := by
  simp [Array.getD_eq_getD_getElem?, Array.getElem?_eq_none le]

theorem lt_size_of_getD_ne {β : Type} {xs : Array β} {i : Nat} {d : β} (ne : xs.getD i d ≠ d) :
    i < xs.size := by
  rcases Nat.lt_or_ge i xs.size with lt | ge
  · exact lt
  · exact absurd (getD_of_size_le d ge) ne

theorem getD_push {β : Type} (xs : Array β) (i : Nat) (x d : β) :
    (xs.push x).getD i d = if i = xs.size then x else xs.getD i d := by
  simp only [Array.getD_eq_getD_getElem?, Array.getElem?_push]
  split <;> rfl

/-- Counting after a write, in a form without subtraction. -/
theorem countP_setIfInBounds {β : Type} (p : β → Bool) {xs : Array β} {i : Nat} (x d : β)
    (lt : i < xs.size) :
    (xs.setIfInBounds i x).countP p + (if p (xs.getD i d) then 1 else 0) =
      xs.countP p + (if p x then 1 else 0) := by
  have get : xs.getD i d = xs[i] := by simp [Array.getD_eq_getD_getElem?, lt]
  rw [Array.setIfInBounds, dif_pos lt, Array.countP_set, get]
  by_cases h : p xs[i] = true
  · have : 0 < xs.countP p := Array.countP_pos_iff.mpr ⟨xs[i], Array.getElem_mem lt, h⟩
    rw [if_pos h]; omega
  · rw [if_neg h]; omega

namespace Hashed

variable {α : Type}

/-! ## Slots in use -/

def isTombstone : Slot → Bool
  | .tombstone => true
  | _ => false

theorem countP_isFull_add (slots : List Slot) (h : .empty ∉ slots) :
    slots.countP Slot.isFull + slots.countP isTombstone = slots.length := by
  induction slots with
  | nil => rfl
  | cons slot slots ih =>
    rw [List.mem_cons, not_or] at h
    have := ih h.2
    rw [List.countP_cons, List.countP_cons, List.length_cons]
    cases slot with
    | empty => exact absurd rfl h.1
    | tombstone => simp only [Slot.isFull, isTombstone, if_true, Bool.false_eq_true, if_false]; omega
    | full index => simp only [Slot.isFull, isTombstone, if_true, Bool.false_eq_true, if_false]; omega

/-- When less than every slot is in use, one is empty. -/
theorem exists_empty {slots : Array Slot}
    (lt : slots.countP Slot.isFull + slots.countP isTombstone < slots.size) :
    ∃ slot < slots.size, slots.getD slot .empty = .empty := by
  have mem : Slot.empty ∈ slots.toList := by
    refine Decidable.byContradiction fun h => ?_
    have := countP_isFull_add slots.toList h
    rw [Array.countP_toList, Array.countP_toList, Array.length_toList] at this
    omega
  obtain ⟨slot, hslot, eq⟩ := List.getElem_of_mem mem
  rw [Array.length_toList] at hslot
  rw [Array.getElem_toList] at eq
  exact ⟨slot, hslot, by simp [Array.getD_eq_getD_getElem?, hslot, eq]⟩

/-! ## Slots and entries -/

/-- A position that fits a slot is kept there. -/
theorem position?_full {index : Nat} (fits : index < UInt32.size) :
    (Slot.full (.ofNat index)).position? = some index := by
  rw [Slot.position?, UInt32.toNat_ofNat_of_lt' fits]

/-- No slot holds a position that does not fit. -/
theorem position_lt {slot : Slot} {index : Nat} (h : slot.position? = some index) :
    index < UInt32.size := by
  cases slot with
  | full position => cases h; exact position.toNat_lt_size
  | _ => cases h

structure Indexes (slots : Array Slot) (entry : Nat → Option (Entry α)) : Prop where
  /-- A full slot holds the position of an entry. -/
  held {slot index : Nat} : (slots.getD slot .empty).position? = some index →
    ∃ e, entry index = some e
  /-- An entry is reached from its home. -/
  reached {index : Nat} {e : Entry α} : entry index = some e →
    ∃ slot, (slots.getD slot .empty).position? = some index ∧
      Reaches slots (home slots.size e.key) slot
  /-- A position is in one slot only. -/
  unique {slot slot' index : Nat} : (slots.getD slot .empty).position? = some index →
    (slots.getD slot' .empty).position? = some index → slot = slot'

theorem lt_size_of_position? {slots : Array Slot} {slot index : Nat}
    (h : (slots.getD slot .empty).position? = some index) : slot < slots.size :=
  lt_size_of_getD_ne (Slot.ne_empty_of_position? h)

theorem Reaches.lt_size {slots : Array Slot} {start slot : Nat} (pos : 0 < slots.size)
    (h : Reaches slots start slot) : slot < slots.size := by
  obtain ⟨steps, rfl, _⟩ := h
  exact Nat.mod_lt _ pos

/-- A way stays open to walk when a slot is put to use. -/
theorem Reaches.setIfInBounds {slots : Array Slot} {start slot : Nat} (h : Reaches slots start slot)
    (i : Nat) {x : Slot} (ne : x ≠ .empty) : Reaches (slots.setIfInBounds i x) start slot := by
  obtain ⟨steps, eq, unbroken⟩ := h
  refine ⟨steps, by rw [Array.size_setIfInBounds]; exact eq, fun j hj => ?_⟩
  rw [Array.size_setIfInBounds, getD_setIfInBounds]
  split
  · exact ne
  · exact unbroken j hj

namespace Indexes

variable {slots : Array Slot} {entry entry' : Nat → Option (Entry α)}

/-- A new position goes into a vacant slot on the way of its key. -/
theorem put (h : Indexes slots entry) (pos : 0 < slots.size) {slot index : Nat} {e : Entry α}
    (vacant : IsVacant slots (home slots.size e.key) slot) (new : entry index = none)
    (fits : index < UInt32.size) (eq : ∀ i, entry' i = if i = index then some e else entry i) :
    Indexes (slots.setIfInBounds slot (.full (.ofNat index))) entry' := by
  have hslot : slot < slots.size := vacant.reaches.lt_size pos
  -- the slot held no position before, so all others hold what they held
  have old : ∀ {s i}, (slots.getD s .empty).position? = some i → slot ≠ s := by
    rintro s i full rfl
    rw [vacant.notFull] at full
    cases full
  have read : ∀ s, ((slots.setIfInBounds slot (.full (.ofNat index))).getD s .empty).position? =
      if slot = s then some index else (slots.getD s .empty).position? := by
    intro s
    rw [getD_setIfInBounds]
    by_cases hs : slot = s
    · rw [if_pos ⟨hs, hslot⟩, if_pos hs, position?_full fits]
    · rw [if_neg fun h => hs h.1, if_neg hs]
  refine ⟨?_, ?_, ?_⟩
  · intro s i full
    rw [read] at full
    rw [eq]
    by_cases hi : i = index
    · exact ⟨e, by rw [if_pos hi]⟩
    · rw [if_neg hi]
      by_cases hs : slot = s
      · rw [if_pos hs, Option.some.injEq] at full
        exact absurd full.symm hi
      · rw [if_neg hs] at full
        exact h.held full
  · intro i e' he'
    rw [eq] at he'
    by_cases hi : i = index
    · rw [if_pos hi, Option.some.injEq] at he'
      subst hi he'
      refine ⟨slot, by rw [read, if_pos rfl], ?_⟩
      rw [Array.size_setIfInBounds]
      exact vacant.reaches.setIfInBounds _ (by simp)
    · rw [if_neg hi] at he'
      obtain ⟨s, full, reaches⟩ := h.reached he'
      refine ⟨s, by rw [read, if_neg (old full)]; exact full, ?_⟩
      rw [Array.size_setIfInBounds]
      exact reaches.setIfInBounds _ (by simp)
  · intro s s' i full full'
    rw [read] at full full'
    -- a slot that held the new position before would hold an entry that was not there
    have fresh : ∀ s, (slots.getD s .empty).position? ≠ some index := by
      intro s hs
      obtain ⟨e', he'⟩ := h.held hs
      rw [new] at he'; cases he'
    by_cases hs : slot = s <;> by_cases hs' : slot = s'
    · rw [← hs, ← hs']
    · rw [if_pos hs, Option.some.injEq] at full
      rw [if_neg hs', ← full] at full'
      exact absurd full' (fresh s')
    · rw [if_pos hs', Option.some.injEq] at full'
      rw [if_neg hs, ← full'] at full
      exact absurd full (fresh s)
    · rw [if_neg hs] at full
      rw [if_neg hs'] at full'
      exact h.unique full full'

/-- The slot of an entry that goes becomes a tombstone. -/
theorem clear (h : Indexes slots entry) {slot index : Nat}
    (full : (slots.getD slot .empty).position? = some index)
    (eq : ∀ i, entry' i = if i = index then none else entry i) :
    Indexes (slots.setIfInBounds slot .tombstone) entry' := by
  have hslot : slot < slots.size := lt_size_of_position? full
  have read : ∀ {s i},
      ((slots.setIfInBounds slot .tombstone).getD s .empty).position? = some i →
      slot ≠ s ∧ (slots.getD s .empty).position? = some i := by
    intro s i hs
    rw [getD_setIfInBounds] at hs
    by_cases eq : slot = s
    · rw [if_pos ⟨eq, hslot⟩] at hs
      cases hs
    · exact ⟨eq, by simpa [eq] using hs⟩
  refine ⟨?_, ?_, ?_⟩
  · intro s i hs
    obtain ⟨ne, hs⟩ := read hs
    have hi : i ≠ index := by
      rintro rfl
      exact ne (h.unique full hs)
    rw [eq, if_neg hi]
    exact h.held hs
  · intro i e he
    rw [eq] at he
    by_cases hi : i = index
    · rw [if_pos hi] at he; cases he
    · rw [if_neg hi] at he
      obtain ⟨s, hs, reaches⟩ := h.reached he
      have ne : slot ≠ s := by
        rintro rfl
        rw [full, Option.some.injEq] at hs
        exact hi hs.symm
      refine ⟨s, ?_, ?_⟩
      · rw [getD_setIfInBounds, if_neg (fun h => ne h.1)]; exact hs
      · rw [Array.size_setIfInBounds]
        exact reaches.setIfInBounds _ (by simp)
  · intro s s' i hs hs'
    exact h.unique (read hs).2 (read hs').2

/-- An entry may be replaced by another one with its key. -/
theorem overwrite (h : Indexes slots entry) {index : Nat} {e e' : Entry α}
    (he : entry index = some e) (key : e'.key = e.key)
    (eq : ∀ i, entry' i = if i = index then some e' else entry i) : Indexes slots entry' := by
  refine ⟨?_, ?_, h.unique⟩
  · intro s i hs
    rw [eq]
    by_cases hi : i = index
    · exact ⟨e', by rw [if_pos hi]⟩
    · rw [if_neg hi]; exact h.held hs
  · intro i x hx
    rw [eq] at hx
    by_cases hi : i = index
    · rw [if_pos hi, Option.some.injEq] at hx
      subst hi hx
      rw [key]
      exact h.reached he
    · rw [if_neg hi] at hx
      exact h.reached hx

end Indexes

end Hashed

end ValueMachine.Table
