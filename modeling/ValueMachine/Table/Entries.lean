/-!
# Lists of entries

A list of entries with distinct keys, read and written from the front. A small table is such a list,
and a hashed one does to its entries what is done to a list here.

Results:
* `find?_append_cons`, `overwrite_append_cons`, `eraseP_append_cons`: what happens to a list around
  the entry with the key;
* `nodup_overwrite`, `nodup_snoc`: changes keep keys distinct.
-/

namespace ValueMachine.Table

structure Entry (α : Type) where
  key : String
  value : α

variable {α : Type}

/-- The first entry of a list with the given key. -/
def find? (key : String) (entries : List (Entry α)) : Option (Entry α) :=
  entries.find? (·.key == key)

/-- Overwrites the first entry with the key. -/
def overwrite (key : String) (value : α) : List (Entry α) → List (Entry α)
  | [] => []
  | e :: rest => if e.key = key then ⟨key, value⟩ :: rest else e :: overwrite key value rest

theorem find?_eq_none {key : String} {entries : List (Entry α)} :
    find? key entries = none ↔ ∀ e ∈ entries, e.key ≠ key := by
  simp [find?]

theorem find?_append_cons {key : String} {before after : List (Entry α)} {e : Entry α}
    (ne : ∀ x ∈ before, x.key ≠ key) (eq : e.key = key) :
    find? key (before ++ e :: after) = some e := by
  rw [find?, List.find?_append, ← find?, find?_eq_none.mpr ne, Option.none_or,
    List.find?_cons_of_pos (by simp [eq])]

theorem overwrite_append_cons {key : String} (value : α) {before after : List (Entry α)}
    {e : Entry α} (ne : ∀ x ∈ before, x.key ≠ key) (eq : e.key = key) :
    overwrite key value (before ++ e :: after) = before ++ ⟨key, value⟩ :: after := by
  induction before with
  | nil => rw [List.nil_append, overwrite, if_pos eq, List.nil_append]
  | cons x before ih =>
    rw [List.cons_append, overwrite, if_neg (ne x List.mem_cons_self),
      ih fun y hy => ne y (List.mem_cons_of_mem x hy), List.cons_append]

theorem eraseP_append_cons {key : String} {before after : List (Entry α)} {e : Entry α}
    (ne : ∀ x ∈ before, x.key ≠ key) (eq : e.key = key) :
    (before ++ e :: after).eraseP (·.key == key) = before ++ after := by
  rw [List.eraseP_append_right _ fun x hx => by simpa using ne x hx,
    List.eraseP_cons_of_pos (by simp [eq])]

theorem map_key_overwrite (key : String) (value : α) (entries : List (Entry α)) :
    (overwrite key value entries).map (·.key) = entries.map (·.key) := by
  induction entries with
  | nil => rfl
  | cons e rest ih =>
    rw [overwrite]
    split
    · next eq => rw [List.map_cons, List.map_cons, eq]
    · rw [List.map_cons, ih, List.map_cons]

theorem nodup_overwrite {entries : List (Entry α)} (key : String) (value : α)
    (nodup : (entries.map (·.key)).Nodup) :
    ((overwrite key value entries).map (·.key)).Nodup := by
  rw [map_key_overwrite]; exact nodup

theorem nodup_snoc {entries : List (Entry α)} {key : String} (value : α)
    (nodup : (entries.map (·.key)).Nodup) (absent : find? key entries = none) :
    ((entries ++ [Entry.mk key value]).map (·.key)).Nodup := by
  rw [List.map_append, List.nodup_append]
  refine ⟨nodup, by simp, ?_⟩
  intro x hx y hy
  obtain ⟨e, he, rfl⟩ := List.mem_map.mp hx
  rw [List.map_singleton, List.mem_singleton] at hy
  rw [hy]
  exact find?_eq_none.mp absent e he

theorem nodup_eraseP {entries : List (Entry α)} (key : String)
    (nodup : (entries.map (·.key)).Nodup) :
    ((entries.eraseP (·.key == key)).map (·.key)).Nodup :=
  nodup.sublist (List.eraseP_sublist.map _)

end ValueMachine.Table
