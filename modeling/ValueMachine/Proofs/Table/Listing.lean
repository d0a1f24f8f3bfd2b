import Mathlib.Data.List.Nodup
import Mathlib.Data.List.Perm.Subperm
import ValueMachine.Table.Basic

/-!
# Tables are lists of pairs

Whatever is asked of a table, it answers like a plain list of keys and values: writing a key that is
present changes the pair in place, writing another key puts a pair at the end, and removing a key
takes its pair out. How the table keeps its entries never shows.

Results:
* `Table.toList_insert`, `Table.toList_erase` and the lemmas beside them: one operation;
* `Table.toList_ofList`: a table made of pairs with distinct keys lists these pairs;
* `Table.toList_ofList_eq`, `Listing.ofPairs_subperm`: what one made of any pairs lists;
* `Table.rel_get?_iff`: when the values of two tables correspond key by key.
-/

namespace ValueMachine

variable {α : Type}

/-! ## Lists of pairs -/

namespace Listing

/-- Changes the pair with the key in place, or puts a new pair at the end. -/
def put (l : List (String × α)) (key : String) (value : α) : List (String × α) :=
  if key ∈ l.map Prod.fst then l.map fun p => if p.1 = key then (key, value) else p
  else l ++ [(key, value)]

/-- Takes the pair with the key out. -/
def remove (l : List (String × α)) (key : String) : List (String × α) := l.filter (·.1 ≠ key)

/-- The list made of pairs, one after the other. -/
def ofPairs (pairs : List (String × α)) : List (String × α) :=
  pairs.foldl (fun l p => put l p.1 p.2) []

theorem map_put {β : Type} (f : α → β) (l : List (String × α)) (key : String) (value : α) :
    (put l key value).map (Prod.map id f) = put (l.map (Prod.map id f)) key (f value) := by
  have keys : (l.map (Prod.map id f)).map Prod.fst = l.map Prod.fst := by
    rw [List.map_map]; rfl
  rw [put, put, keys]
  split
  · rw [List.map_map, List.map_map]
    refine List.map_congr_left fun p _ => ?_
    by_cases h : p.1 = key <;> simp [h]
  · rw [List.map_append]
    rfl

/-- What is done to the values may be done before or after. -/
theorem map_ofPairs {β : Type} (f : α → β) (pairs : List (String × α)) :
    (ofPairs pairs).map (Prod.map id f) = ofPairs (pairs.map (Prod.map id f)) := by
  have step : ∀ l : List (String × α),
      (pairs.foldl (fun l p => put l p.1 p.2) l).map (Prod.map id f) =
        (pairs.map (Prod.map id f)).foldl (fun l p => put l p.1 p.2) (l.map (Prod.map id f)) := by
    induction pairs with
    | nil => exact fun l => rfl
    | cons p pairs ih =>
      intro l
      rw [List.foldl_cons, ih, map_put, List.map_cons, List.foldl_cons]
      rfl
  exact step []

/-- A pair that is put takes the place of the one with its key. -/
theorem put_perm {l : List (String × α)} (nodup : (l.map Prod.fst).Nodup) (key : String)
    (value : α) : (put l key value).Perm ((key, value) :: remove l key) := by
  rw [put]
  split
  · next mem =>
    obtain ⟨p, hp, rfl⟩ := List.mem_map.mp mem
    obtain ⟨front, rear, rfl⟩ := List.append_of_mem hp
    have other : ∀ q ∈ front ++ rear, q.1 ≠ p.1 := by
      intro q hq eq
      rw [List.map_append, List.map_cons, List.nodup_middle, List.nodup_cons] at nodup
      refine nodup.1 ?_
      rw [← List.map_append, ← eq]
      exact List.mem_map_of_mem hq
    have same : ∀ q ∈ front ++ rear, (if q.1 = p.1 then (p.1, value) else q) = q :=
      fun q hq => if_neg (other q hq)
    have kept : ∀ q ∈ front ++ rear, decide (q.1 ≠ p.1) = true :=
      fun q hq => decide_eq_true (other q hq)
    rw [List.forall_mem_append] at same kept
    rw [remove, List.filter_append, List.filter_cons_of_neg (by simp), List.filter_eq_self.mpr kept.1,
      List.filter_eq_self.mpr kept.2, List.map_append, List.map_cons, List.map_congr_left same.1,
      List.map_congr_left same.2, List.map_id', List.map_id', if_pos rfl]
    exact List.perm_middle
  · next absent =>
    have kept : ∀ q ∈ l, decide (q.1 ≠ key) = true := by
      intro q hq
      refine decide_eq_true ?_
      rintro rfl
      exact absent (List.mem_map_of_mem hq)
    rw [remove, List.filter_eq_self.mpr kept]
    exact List.perm_append_singleton _ _

theorem nodup_put {l : List (String × α)} (nodup : (l.map Prod.fst).Nodup) (key : String)
    (value : α) : ((put l key value).map Prod.fst).Nodup := by
  rw [((put_perm nodup key value).map Prod.fst).nodup_iff, List.map_cons, List.nodup_cons]
  refine ⟨fun mem => ?_, nodup.sublist (List.filter_sublist.map _)⟩
  obtain ⟨q, mem, eq⟩ := List.mem_map.mp mem
  exact of_decide_eq_true (List.mem_filter.mp mem).2 eq

/-- Every pair of the list is one of the given pairs, each of them once at most. -/
theorem ofPairs_subperm (pairs : List (String × α)) : (ofPairs pairs).Subperm pairs := by
  have step : ∀ l : List (String × α), (l.map Prod.fst).Nodup →
      (pairs.foldl (fun l p => put l p.1 p.2) l).Subperm (l ++ pairs) := by
    induction pairs with
    | nil => exact fun l _ => by rw [List.append_nil]; exact List.Subperm.refl _
    | cons p pairs ih =>
      intro l nodup
      have before : (p :: remove l p.1 ++ pairs).Subperm (l ++ p :: pairs) := by
        refine List.Subperm.trans ?_ List.perm_middle.symm.subperm
        exact (List.subperm_cons p).mpr (List.filter_sublist.append_right pairs).subperm
      exact (ih _ (nodup_put nodup p.1 p.2)).trans
        ((((put_perm nodup p.1 p.2).append_right pairs).subperm).trans before)
  exact step [] List.nodup_nil

end Listing

/-! ## One operation -/

namespace Table

/-- A key and a value. -/
def Entry.toPair (e : Entry α) : String × α := (e.key, e.value)

theorem find?_map_value (key : String) (entries : List (Entry α)) :
    (find? key entries).map (·.value) = (entries.map Entry.toPair).lookup key := by
  induction entries with
  | nil => rfl
  | cons e rest ih =>
    rw [List.map_cons, Entry.toPair]
    by_cases h : e.key = key
    · rw [find?, List.find?_cons_of_pos (by simp [h]), ← h, List.lookup_cons_self]
      rfl
    · have ne : (key == e.key) = false := by simp [Ne.symm h]
      rw [find?, List.find?_cons_of_neg (by simp [h]), ← find?, ih, List.lookup_cons, ne]

theorem find?_eq_none_iff (key : String) (entries : List (Entry α)) :
    find? key entries = none ↔ key ∉ entries.map (·.key) := by
  rw [find?_eq_none, List.mem_map]
  constructor
  · rintro h ⟨e, he, rfl⟩
    exact h e he rfl
  · rintro h e he rfl
    exact h ⟨e, he, rfl⟩

/-- With distinct keys, only the first pair with the key can have it. -/
theorem map_overwrite {entries : List (Entry α)} (nodup : (entries.map (·.key)).Nodup)
    (key : String) (value : α) :
    (overwrite key value entries).map Entry.toPair =
      (entries.map Entry.toPair).map fun p => if p.1 = key then (key, value) else p := by
  induction entries with
  | nil => rfl
  | cons e rest ih =>
    rw [List.map_cons, List.nodup_cons] at nodup
    rw [overwrite]
    by_cases h : e.key = key
    · have others : ∀ p ∈ rest.map Entry.toPair, (if p.1 = key then (key, value) else p) = p := by
        intro p hp
        obtain ⟨x, hx, rfl⟩ := List.mem_map.mp hp
        refine if_neg fun eq => ?_
        exact nodup.1 (List.mem_map.mpr ⟨x, hx, eq.trans h.symm⟩)
      rw [if_pos h, List.map_cons, List.map_cons, List.map_cons, List.map_congr_left others,
        List.map_id']
      simp [Entry.toPair, h]
    · rw [if_neg h, List.map_cons, ih nodup.2, List.map_cons, List.map_cons]
      simp [Entry.toPair, h]

theorem map_eraseP {entries : List (Entry α)} (nodup : (entries.map (·.key)).Nodup)
    (key : String) : (entries.eraseP (·.key == key)).map Entry.toPair =
      Listing.remove (entries.map Entry.toPair) key := by
  induction entries with
  | nil => rfl
  | cons e rest ih =>
    rw [List.map_cons, List.nodup_cons] at nodup
    rw [Listing.remove] at ih ⊢
    by_cases h : e.key = key
    · have others : ∀ p ∈ rest.map Entry.toPair, decide (p.1 ≠ key) = true := by
        intro p hp
        obtain ⟨x, hx, rfl⟩ := List.mem_map.mp hp
        refine decide_eq_true fun eq => ?_
        exact nodup.1 (List.mem_map.mpr ⟨x, hx, eq.trans h.symm⟩)
      rw [List.eraseP_cons_of_pos (by simp [h]), List.map_cons,
        List.filter_cons_of_neg (by simp [Entry.toPair, h]), List.filter_eq_self.mpr others]
    · rw [List.eraseP_cons_of_neg (by simp [h]), List.map_cons, List.map_cons,
        List.filter_cons_of_pos (by simp [Entry.toPair, h]), ih nodup.2]

theorem map_fst_toList (t : Table α) : t.toList.map Prod.fst = t.entries.map (·.key) := by
  rw [toList, List.map_map]; rfl

theorem nodup_keys (t : Table α) : (t.toList.map Prod.fst).Nodup := by
  rw [map_fst_toList]; exact t.isValid.nodup

theorem get?_eq (t : Table α) (key : String) : t.get? key = t.toList.lookup key :=
  (t.isValid.get?_eq key).trans (find?_map_value key t.entries)

theorem size_eq (t : Table α) : t.size = t.toList.length := by
  rw [toList, List.length_map]; exact t.isValid.length_entries.symm

theorem contains_eq (t : Table α) (key : String) :
    t.contains key = decide (key ∈ t.toList.map Prod.fst) := by
  rw [contains, get?_eq, Bool.eq_iff_iff, List.lookup_isSome_iff, decide_eq_true_iff, List.mem_map]
  constructor
  · rintro ⟨p, hp, eq⟩
    exact ⟨p, hp, (beq_iff_eq.mp eq).symm⟩
  · rintro ⟨p, hp, rfl⟩
    exact ⟨p, hp, beq_self_eq_true _⟩

theorem fst_insert (threshold : Nat) (t : Table α) (key : String) (value : α) :
    (t.insert threshold key value).1 = t.toList.lookup key :=
  (t.isValid.fst_write threshold key value).trans (find?_map_value key t.entries)

theorem toList_insert (threshold : Nat) (t : Table α) (key : String) (value : α) :
    (t.insert threshold key value).2.toList = Listing.put t.toList key value := by
  show ((t.storage.write threshold key value).2.entries).map Entry.toPair = _
  rw [Listing.put, map_fst_toList]
  cases found : find? key t.entries with
  | some e =>
    have mem : key ∈ t.entries.map (·.key) := by
      refine Decidable.byContradiction fun h => ?_
      rw [(find?_eq_none_iff key t.entries).mpr h] at found
      cases found
    rw [if_pos mem, t.isValid.entries_write_of_some threshold value found]
    exact map_overwrite t.isValid.nodup key value
  | none =>
    rw [if_neg ((find?_eq_none_iff key t.entries).mp found),
      t.isValid.entries_write_of_none threshold value found, List.map_append]
    rfl

theorem fst_erase (t : Table α) (key : String) : (t.erase key).1 = t.toList.lookup key :=
  (t.isValid.fst_erase key).trans (find?_map_value key t.entries)

theorem toList_erase (t : Table α) (key : String) :
    (t.erase key).2.toList = Listing.remove t.toList key := by
  show ((t.storage.erase key).2.entries).map Entry.toPair = _
  rw [t.isValid.entries_erase]
  exact map_eraseP t.isValid.nodup key

/-- Removing a key that is not there removes nothing. -/
theorem snd_erase_of_none {t : Table α} {key : String} (absent : (t.erase key).1 = none) :
    (t.erase key).2 = t := by
  obtain ⟨storage, isValid⟩ := t
  suffices same : (storage.erase key).2 = storage by simp only [erase, same]
  change (storage.erase key).1 = none at absent
  cases storage with
  | linear entries =>
    have others : ∀ e ∈ entries, e.key ≠ key := by
      simpa [Storage.erase, find?_eq_none] using absent
    refine congrArg Storage.linear (List.eraseP_of_forall_not fun e mem => ?_)
    simpa using others e mem
  | hashed table =>
    obtain ⟨_, _, _, _, _, _, eq⟩ | ⟨_, eq⟩ := isValid.1.erase_cases key
    · rw [Storage.erase, eq] at absent
      cases absent
    · rw [Storage.erase, eq]

/-! ## Tables made of pairs -/

/-- A table made of pairs lists them, one after the other. -/
theorem toList_ofList_eq (threshold : Nat) (pairs : List (String × α)) :
    (ofList threshold pairs).toList = Listing.ofPairs pairs := by
  have step : ∀ t : Table α, (t.insertAll threshold pairs).toList =
      pairs.foldl (fun l p => Listing.put l p.1 p.2) t.toList := by
    induction pairs with
    | nil => exact fun t => rfl
    | cons p pairs ih =>
      intro t
      rw [List.foldl_cons, ← toList_insert threshold]
      exact ih _
  exact step empty

theorem toList_insertAll (threshold : Nat) (pairs : List (String × α)) :
    ∀ t : Table α, (t.toList.map Prod.fst ++ pairs.map Prod.fst).Nodup →
      (t.insertAll threshold pairs).toList = t.toList ++ pairs := by
  induction pairs with
  | nil => intro t _; rw [List.append_nil]; rfl
  | cons p pairs ih =>
    intro t nodup
    have absent : p.1 ∉ t.toList.map Prod.fst := by
      rw [List.map_cons, List.nodup_append] at nodup
      exact fun mem => nodup.2.2 _ mem _ List.mem_cons_self rfl
    have inserted : (t.insert threshold p.1 p.2).2.toList = t.toList ++ [p] := by
      rw [toList_insert, Listing.put, if_neg absent]
    have := ih (t.insert threshold p.1 p.2).2 (by
      rw [inserted, List.map_append, List.append_assoc]; exact nodup)
    rw [inserted, List.append_assoc] at this
    exact this

/-- A table made of pairs with distinct keys lists these pairs. -/
theorem toList_ofList (threshold : Nat) {pairs : List (String × α)}
    (nodup : (pairs.map Prod.fst).Nodup) : (ofList threshold pairs).toList = pairs :=
  toList_insertAll threshold pairs empty nodup

/-! ## Corresponding tables -/

theorem get?_eq_some_iff (t : Table α) (key : String) (x : α) :
    t.get? key = some x ↔ (key, x) ∈ t.toList := by
  rw [get?_eq, List.lookup_eq_some_iff]
  constructor
  · rintro ⟨front, rear, eq, _⟩
    rw [eq]
    exact List.mem_append_right front List.mem_cons_self
  · intro mem
    obtain ⟨front, rear, eq⟩ := List.append_of_mem mem
    refine ⟨front, rear, eq, fun p hp => ?_⟩
    have nodup := t.nodup_keys
    rw [eq, List.map_append, List.nodup_append] at nodup
    have ne := nodup.2.2 p.1 (List.mem_map_of_mem hp) key (by simp)
    simpa using Ne.symm ne

theorem get?_eq_none_iff (t : Table α) (key : String) :
    t.get? key = none ↔ key ∉ t.toList.map Prod.fst := by
  rw [get?_eq, List.lookup_eq_none_iff, List.mem_map]
  constructor
  · rintro h ⟨p, hp, rfl⟩
    simpa using h p hp
  · intro h p hp
    simpa using fun eq : key = p.1 => h ⟨p, hp, eq.symm⟩

/-- Tables correspond key by key if they have the same size and every entry of the first has a
counterpart in the second: keys are distinct, so the second has no room for another. -/
theorem rel_get?_iff {β : Type} {R : α → β → Prop} (xs : Table α) (ys : Table β) :
    (∀ key, Option.Rel R (xs.get? key) (ys.get? key)) ↔
      xs.size = ys.size ∧ ∀ p ∈ xs.toList, ∃ y, ys.get? p.1 = some y ∧ R p.2 y := by
  constructor
  · intro related
    have mem (key : String) : key ∈ xs.toList.map Prod.fst ↔ key ∈ ys.toList.map Prod.fst := by
      have at_key := related key
      rw [← not_iff_not, ← get?_eq_none_iff, ← get?_eq_none_iff]
      generalize xs.get? key = x, ys.get? key = y at at_key
      cases at_key <;> simp
    have perm := (List.perm_ext_iff_of_nodup xs.nodup_keys ys.nodup_keys).mpr mem
    refine ⟨by simpa [size_eq] using perm.length_eq, fun p hp => ?_⟩
    have at_key := related p.1
    rw [(xs.get?_eq_some_iff p.1 p.2).mpr hp] at at_key
    generalize ys.get? p.1 = y at at_key
    cases at_key with
    | some related => exact ⟨_, rfl, related⟩
  · rintro ⟨size, counterpart⟩ key
    cases found : xs.get? key with
    | some x =>
      obtain ⟨y, found', related⟩ := counterpart _ ((xs.get?_eq_some_iff key x).mp found)
      rw [found']
      exact .some related
    | none =>
      have subset : xs.toList.map Prod.fst ⊆ ys.toList.map Prod.fst := by
        intro key mem
        obtain ⟨p, hp, rfl⟩ := List.mem_map.mp mem
        obtain ⟨y, found', _⟩ := counterpart p hp
        exact List.mem_map_of_mem ((ys.get?_eq_some_iff p.1 y).mp found')
      have perm := (List.subperm_of_subset xs.nodup_keys subset).perm_of_length_le
        (by simpa [size_eq] using Nat.le_of_eq size.symm)
      rw [get?_eq_none_iff, perm.mem_iff, ← get?_eq_none_iff] at found
      rw [found]
      exact .none

end Table

end ValueMachine
