import Mathlib.Algebra.Group.Nat.Defs
import Mathlib.Data.List.Nodup
import ValueMachine.Table.Upkeep

/-!
# Reachable hashed tables

The hashed tables that come from a list of entries with distinct keys by writing and removing. All
of them count their slots rightly, so one slot is empty and the loops over the slots, which have no
bound of their own, end: that of a search for any key, and those that place the entries of a
rebuild. As long as fewer than `2 ^ 31` entries have been live at a time, no position is cut, and
the slots find the entries.

Results:
* `places_rebuild`: a rebuild ends;
* `sound_of_reachable`: what holds of every reachable table, and of one that was never crowded;
* `exists_lost_entry`: with one entry more than there are positions, an entry is in no slot.
-/

namespace ValueMachine.Table.Hashed

variable {α : Type}

/-- The tables that have had at most `most` live entries at a time. -/
inductive Reachable (most : Nat) : Hashed α → Prop
  | ofEntries {entries : List (Entry α)} (nodup : (entries.map (·.key)).Nodup)
    (few : entries.length ≤ most) : Reachable most (ofEntries entries)
  | insert {t : Hashed α} (h : Reachable most t) (key : String) (value : α)
    (few : (t.insert key value).2.live ≤ most) : Reachable most (t.insert key value).2
  | erase {t : Hashed α} (h : Reachable most t) (key : String) : Reachable most (t.erase key).2

/-! ## Rebuilds end -/

/-- The loops that place entries at the positions from `index` on: for each entry, the one that
looks for an empty slot has ended. -/
inductive Places : Array Slot → Nat → List (Entry α) → Array Slot → Prop
  | nil {slots : Array Slot} {index : Nat} : Places slots index [] slots
  | cons {slots placed : Array Slot} {index slot : Nat} {e : Entry α} {rest : List (Entry α)}
    (settles : Settles slots (home slots.size e.key) slot)
    (others : Places (slots.setIfInBounds slot (.full (.ofNat index))) (index + 1) rest placed) :
    Places slots index (e :: rest) placed

theorem places_place (rest : List (Entry α)) :
    ∀ (positions : Nat) (slots : Array Slot), Occupied positions slots →
      positions + rest.length ≤ slots.size →
      Places slots positions rest (place slots positions rest) := by
  induction rest with
  | nil => intro positions slots _ _; exact .nil
  | cons e rest ih =>
    intro positions slots h le
    rw [List.length_cons] at le
    refine .cons (h.settles (by omega) e.key) (ih _ _ (h.succ (by omega) e.key _) ?_)
    rw [Array.size_setIfInBounds]
    omega

theorem places_rebuild {t : Hashed α} (h : t.Counted) {capacity : Nat}
    (le : t.slots.size ≤ capacity) :
    Places (Array.replicate capacity .empty) 0 t.toList (t.rebuild capacity).slots := by
  have := h.load
  refine places_place t.toList 0 _ (occupied_zero capacity) ?_
  rw [Array.size_replicate, h.length_toList]
  omega

/-! ## Reachable tables -/

theorem Reachable.counted {most : Nat} {t : Hashed α} (h : Reachable most t) : t.Counted := by
  induction h with
  | ofEntries _ _ => exact counted_ofEntries _
  | insert _ key value _ ih => exact ih.insert key value
  | erase _ key ih => exact ih.erase key

theorem Reachable.isCompact {most : Nat} {t : Hashed α} (h : Reachable most t) :
    t.IsCompact := by
  induction h with
  | ofEntries _ _ => exact isCompact_build _ _
  | insert before key value _ ih => exact ih.insert before.counted key value
  | erase before key ih => exact ih.erase before.counted key

theorem live_clear_le (t : Hashed α) (slot index : Nat) : (t.clear slot index).live ≤ t.live :=
  Nat.sub_le _ _

theorem Counted.live_erase_le {t : Hashed α} (h : t.Counted) (key : String) :
    (t.erase key).2.live ≤ t.live := by
  obtain ⟨slot, index, entry, full, held, _, eq⟩ | ⟨_, eq⟩ := h.erase_cases key
  · rw [eq, ← (h.clear full held).compact.length_toList, toList_compact,
      (h.clear full held).length_toList]
    exact live_clear_le t slot index
  · exact Nat.le_of_eq (congrArg (fun answer => answer.2.live) eq)

theorem Reachable.live_le {most : Nat} {t : Hashed α} (h : Reachable most t) : t.live ≤ most := by
  induction h with
  | ofEntries _ few => exact few
  | insert _ _ _ few _ => exact few
  | erase before key ih => exact Nat.le_trans (before.counted.live_erase_le key) ih

/-- At most half of the positions hold live entries, and there are no more holes than these. -/
theorem Reachable.fits {most : Nat} {t : Hashed α} (h : Reachable most t) (few : most < 2 ^ 31) :
    t.entries.size < 2 ^ 32 := by
  have compact : t.entries.size ≤ t.live + max t.live 32 := h.isCompact
  have := h.live_le
  omega

theorem Reachable.sound {most : Nat} {t : Hashed α} (h : Reachable most t) (few : most < 2 ^ 31) :
    t.Sound := by
  have fits : most ≤ UInt32.size := by
    rw [UInt32.size]
    omega
  induction h with
  | ofEntries nodup few' => exact sound_ofEntries (Nat.le_trans few' fits) nodup
  | insert before key value _ ih => exact ih.insert (before.fits few) key value
  | erase _ key ih => exact ih.erase key

/-- A live entry is held by exactly one slot, to which no empty slot bars the way from its home. -/
theorem Sound.existsUnique_slot {t : Hashed α} (h : t.Sound) {index : Nat} {e : Entry α}
    (held : t.entries.getD index none = some e) :
    ∃! slot, (t.slots.getD slot .empty).position? = some index ∧
      Reaches t.slots (home t.slots.size e.key) slot := by
  obtain ⟨slot, full, reaches⟩ := h.indexes.reached held
  exact ⟨slot, ⟨full, reaches⟩, fun other hother => h.indexes.unique hother.1 full⟩

/-- Every reachable table counts its slots rightly, and one of them is empty. So the search for a
key, present or not, ends with the answer of `lookup`, and the loops of the rebuilds that writing
and removing can cause end as well. If fewer than `2 ^ 31` entries have been live at a time, the
table is sound, each of its entries is held by exactly one slot, and the search after making room
for a key that was not found does not find it. -/
theorem sound_of_reachable {most : Nat} {t : Hashed α} (h : Reachable most t) :
    (t.Counted ∧
      (∃ slot < t.slots.size, t.slots.getD slot .empty = .empty) ∧
      (∀ key, Walks t key (home t.slots.size key) none (t.lookup key)) ∧
      (∀ key, Walks t.reserve key (home t.reserve.slots.size key) none (t.reserve.lookup key)) ∧
      (∀ capacity, t.slots.size ≤ capacity →
        Places (Array.replicate capacity .empty) 0 t.toList (t.rebuild capacity).slots) ∧
      ∀ key slot index, t.lookup key = .found slot index →
        Places (Array.replicate t.slots.size .empty) 0 (t.clear slot index).toList
          ((t.clear slot index).rebuild t.slots.size).slots) ∧
    (most < 2 ^ 31 →
      t.Sound ∧
      (∀ index e, t.entries.getD index none = some e →
        ∃! slot, (t.slots.getD slot .empty).position? = some index ∧
          Reaches t.slots (home t.slots.size e.key) slot) ∧
      ∀ key slot, t.lookup key = .vacant slot → ∃ slot', t.reserve.lookup key = .vacant slot') := by
  have counted := h.counted
  refine ⟨⟨counted, counted.exists_empty, counted.walks, counted.reserve.walks,
    fun capacity le => places_rebuild counted le, ?_⟩, fun few => ?_⟩
  · intro key slot index found
    obtain ⟨full, e, held, _⟩ := counted.of_lookup_found found
    have size : (t.clear slot index).slots.size = t.slots.size := Array.size_setIfInBounds
    exact places_rebuild (counted.clear full held) (Nat.le_of_eq size)
  · have sound := h.sound few
    exact ⟨sound, fun _ _ held => sound.existsUnique_slot held, fun _ _ => sound.lookup_reserve⟩

/-- A table after a key was written, removed and written again beside another one. -/
theorem sound_of_reachable_rewritten :
    let t := ((((ofEntries [⟨"a", 1⟩]).insert "b" 2).2.erase "b").2.insert "b" 3).2
    Reachable 2 t ∧ t.Sound ∧ ∃ slot < t.slots.size, t.slots.getD slot .empty = .empty := by
  have start : Reachable 2 (ofEntries [(⟨"a", 1⟩ : Entry Nat)]) :=
    .ofEntries (List.nodup_singleton "a") (by decide)
  have reachable : Reachable 2
      ((((ofEntries [⟨"a", 1⟩]).insert "b" 2).2.erase "b").2.insert "b" 3).2 :=
    .insert (.erase (.insert start "b" 2 (by decide +kernel)) "b") "b" 3 (by decide +kernel)
  obtain ⟨⟨_, empty, _⟩, uncrowded⟩ := sound_of_reachable reachable
  exact ⟨reachable, (uncrowded (by decide)).1, empty⟩

/-! ## Crowded tables -/

/-- As many entries as asked for, each with a longer key than the one before. -/
def crowd (size : Nat) : List (Entry Unit) :=
  (List.range size).map fun n => ⟨String.ofList (List.replicate n 'k'), ()⟩

theorem nodup_crowd (size : Nat) : ((crowd size).map (·.key)).Nodup := by
  rw [crowd, List.map_map]
  refine List.nodup_range.map fun i j same => ?_
  have lengths := congrArg (fun key : String => key.toList.length) same
  simpa using lengths

theorem length_crowd (size : Nat) : (crowd size).length = size := by
  rw [crowd, List.length_map, List.length_range]

/-- An entry at a position that does not fit is live, and in no slot. -/
theorem exists_lost {entries : List (Entry α)} {index : Nat} (cut : 2 ^ 32 ≤ index)
    (lt : index < entries.length) :
    ∃ e, (ofEntries entries).entries.getD index none = some e ∧
      ∀ slot, ((ofEntries entries).slots.getD slot .empty).position? ≠ some index := by
  refine ⟨entries[index], ?_, fun slot held => ?_⟩
  · show (entries.map some).toArray.getD index none = _
    simp [Array.getD_eq_getD_getElem?, lt]
  · exact absurd (position_lt held) (Nat.not_lt.mpr cut)

/-- One entry more than there are positions: the last one is live, but no slot holds it. -/
theorem exists_lost_entry :
    Reachable (2 ^ 32 + 1) (ofEntries (crowd (2 ^ 32 + 1))) ∧
    ∃ e, (ofEntries (crowd (2 ^ 32 + 1))).entries.getD (2 ^ 32) none = some e ∧
      ∀ slot, ((ofEntries (crowd (2 ^ 32 + 1))).slots.getD slot .empty).position? ≠
        some (2 ^ 32) := by
  have length := length_crowd (2 ^ 32 + 1)
  refine ⟨.ofEntries (nodup_crowd _) (Nat.le_of_eq length), exists_lost (Nat.le_refl _) ?_⟩
  rw [length]
  exact Nat.lt_succ_self _

end ValueMachine.Table.Hashed
