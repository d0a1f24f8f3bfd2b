import ValueMachine.Proofs.Table.Listing

/-!
# Unions of lists of pairs

Writing one list of pairs into another is an ordered union: keys that are present keep their places
and get the new values, and the other keys follow in their own order. With distinct keys such a
union is determined by its keys and by what is found under each, so it obeys the laws of both.

Results:
* `keys_union`, `lookup_union`: the keys of a union, and what is found under a key;
* `union_assoc`, `union_self`: its laws;
* `Table.toList_insertAll_eq`, `Table.toList_ofList_append`: tables that are written to.
-/

namespace ValueMachine

variable {α : Type}

namespace Listing

/-- The keys of a list, in order. -/
def keys (l : List (String × α)) : List String := l.map Prod.fst

/-- The pairs of `l`, overridden by `r` under the keys of both, and then the other pairs of `r`. -/
def union (l r : List (String × α)) : List (String × α) :=
  l.map (fun p => (p.1, (r.lookup p.1).getD p.2)) ++ r.filter fun p => p.1 ∉ keys l

variable {l r : List (String × α)}

/-! ## Keys and values -/

theorem lookup_eq_none_iff {key : String} : l.lookup key = none ↔ key ∉ keys l := by
  rw [List.lookup_eq_none_iff, keys, List.mem_map]
  constructor
  · rintro absent ⟨p, mem, rfl⟩
    simpa using absent p mem
  · rintro absent p mem
    simpa using fun same : key = p.1 => absent ⟨p, mem, same.symm⟩

/-- Values can be changed before or after one is looked up. -/
theorem lookup_map (f : String → α → α) (key : String) :
    (l.map fun p => (p.1, f p.1 p.2)).lookup key = (l.lookup key).map (f key) := by
  induction l with
  | nil => rfl
  | cons p l ih =>
    rw [List.map_cons, List.lookup_cons, List.lookup_cons, ih]
    cases same : key == p.1 with
    | false => rfl
    | true => rw [eq_of_beq same]; rfl

/-- Under a key that is kept, nothing is lost by keeping some keys only. -/
theorem lookup_filter (kept : String → Bool) (key : String) :
    (l.filter fun p => kept p.1).lookup key = if kept key then l.lookup key else none := by
  induction l with
  | nil => split <;> rfl
  | cons p l ih =>
    rw [List.filter_cons, List.lookup_cons]
    cases same : key == p.1 with
    | false =>
      split
      · rw [List.lookup_cons, same, ih]
      · exact ih
    | true =>
      obtain rfl := eq_of_beq same
      split
      · rw [List.lookup_cons_self]
      · next dropped => rw [ih, if_neg dropped]

/-- The keys of `l`, and then those of `r` that are not among them. -/
theorem keys_union (l r : List (String × α)) :
    keys (union l r) = keys l ++ (keys r).filter (· ∉ keys l) := by
  rw [union, keys, List.map_append, List.map_map, keys, keys, List.filter_map]
  rfl

/-- What the second list has under a key goes before what the first one has. -/
theorem lookup_union (l r : List (String × α)) (key : String) :
    (union l r).lookup key = (r.lookup key).or (l.lookup key) := by
  have rest := lookup_filter (l := r) (fun key => decide (key ∉ keys l)) key
  rw [union, List.lookup_append, lookup_map fun key x => (r.lookup key).getD x, rest]
  cases first : l.lookup key with
  | none =>
    rw [if_pos (decide_eq_true (lookup_eq_none_iff.mp first)), Option.map_none, Option.none_or,
      Option.or_none]
  | some x => cases r.lookup key <;> rfl

theorem mem_keys_union {key : String} :
    key ∈ keys (union l r) ↔ key ∈ keys l ∨ key ∈ keys r := by
  rw [keys_union, List.mem_append, List.mem_filter, decide_eq_true_iff]
  tauto

theorem nodup_union (left : (keys l).Nodup) (right : (keys r).Nodup) :
    (keys (union l r)).Nodup := by
  rw [keys_union]
  refine left.append (right.filter _) fun key mem mem' => ?_
  exact of_decide_eq_true (List.mem_filter.mp mem').2 mem

/-! ## Laws -/

/-- Lists with the same distinct keys, and the same under every key, are the same. -/
theorem eq_of_lookup {l' : List (String × α)} (nodup : (keys l).Nodup) (same : keys l = keys l')
    (lookup : ∀ key, l.lookup key = l'.lookup key) : l = l' := by
  induction l generalizing l' with
  | nil => exact (List.map_eq_nil_iff.mp same.symm).symm
  | cons p l ih =>
    cases l' with
    | nil => cases same
    | cons p' l' =>
      obtain ⟨key, x⟩ := p
      obtain ⟨key', x'⟩ := p'
      obtain ⟨rfl, rest⟩ : key = key' ∧ keys l = keys l' := List.cons.inj same
      obtain ⟨absent, nodup⟩ : key ∉ keys l ∧ (keys l).Nodup := List.nodup_cons.mp nodup
      have first := lookup key
      rw [List.lookup_cons_self, List.lookup_cons_self] at first
      obtain rfl := Option.some.inj first
      refine congrArg _ (ih nodup rest fun other => ?_)
      by_cases same : other = key
      · rw [same, lookup_eq_none_iff.mpr absent, lookup_eq_none_iff.mpr (rest ▸ absent)]
      · have at_other := lookup other
        rwa [List.lookup_cons, List.lookup_cons, beq_false_of_ne same] at at_other

theorem union_nil (l : List (String × α)) : union l [] = l := by
  rw [union, List.filter_nil, List.append_nil]
  exact List.map_id l

theorem nil_union (r : List (String × α)) : union [] r = r := by
  rw [union, List.map_nil, List.nil_append, List.filter_eq_self]
  exact fun p _ => decide_eq_true List.not_mem_nil

theorem union_assoc {s : List (String × α)} (left : (keys l).Nodup) (middle : (keys r).Nodup)
    (right : (keys s).Nodup) : union (union l r) s = union l (union r s) := by
  refine eq_of_lookup (nodup_union (nodup_union left middle) right) ?_ fun key => ?_
  · rw [keys_union, keys_union, keys_union l, keys_union r, List.filter_append, List.filter_filter,
      List.append_assoc]
    refine congrArg (fun rest => keys l ++ ((keys r).filter (· ∉ keys l) ++ rest)) ?_
    refine List.filter_congr fun key _ => ?_
    rw [← keys_union, Bool.eq_iff_iff, Bool.and_eq_true, decide_eq_true_iff, decide_eq_true_iff,
      decide_eq_true_iff, mem_keys_union, not_or]
  · rw [lookup_union, lookup_union, lookup_union, lookup_union, Option.or_assoc]

theorem union_self (nodup : (keys l).Nodup) : union l l = l := by
  refine eq_of_lookup (nodup_union nodup nodup) ?_ fun key => ?_
  · rw [keys_union, List.filter_eq_nil_iff.mpr, List.append_nil]
    exact fun key mem absent => of_decide_eq_true absent mem
  · rw [lookup_union, Option.or_self]

/-! ## Writing pairs -/

/-- Putting one pair is a union with a list of one pair. -/
theorem put_eq_union (l : List (String × α)) (key : String) (value : α) :
    put l key value = union l [(key, value)] := by
  have changed (p : String × α) : (if p.1 = key then (key, value) else p) =
      (p.1, ([(key, value)].lookup p.1).getD p.2) := by
    rw [List.lookup_cons]
    by_cases same : p.1 = key
    · rw [if_pos same, same, beq_self_eq_true]
      rfl
    · rw [if_neg same, beq_false_of_ne same]
      rfl
  rw [put, union, List.filter_cons, List.filter_nil, ← keys]
  split
  · next mem =>
    rw [if_neg (mt of_decide_eq_true (not_not_intro mem)), List.append_nil]
    exact List.map_congr_left fun p _ => changed p
  · next absent =>
    rw [if_pos (decide_eq_true absent)]
    refine congrArg (· ++ _) ((List.map_id l).symm.trans (List.map_congr_left fun p mem => ?_))
    rw [← changed p, if_neg, id]
    rintro rfl
    exact absent (List.mem_map_of_mem mem)

/-- Putting pairs with distinct keys, one after the other, is a union with them. -/
theorem foldl_put_eq_union (left : (keys l).Nodup) (right : (keys r).Nodup) :
    r.foldl (fun l p => put l p.1 p.2) l = union l r := by
  induction r generalizing l with
  | nil => exact (union_nil l).symm
  | cons p r ih =>
    obtain ⟨absent, nodup⟩ : p.1 ∉ keys r ∧ (keys r).Nodup := List.nodup_cons.mp right
    have one : (keys [p]).Nodup := List.nodup_singleton _
    have first : union [p] r = p :: r := by
      have others : r.filter (fun q => decide (q.1 ∉ keys [p])) = r := by
        refine List.filter_eq_self.mpr fun q mem => decide_eq_true fun same => ?_
        obtain eq : q.1 = p.1 := List.mem_singleton.mp same
        exact absent (eq ▸ List.mem_map_of_mem mem)
      rw [union, others, List.map_singleton, lookup_eq_none_iff.mpr absent]
      rfl
    rw [List.foldl_cons, put_eq_union, ih (nodup_union left one) nodup, union_assoc left one nodup,
      first]

end Listing

/-! ## Tables -/

namespace Table

/-- Pairs with distinct keys that are written to a table. -/
theorem toList_insertAll_eq (threshold : Nat) (t : Table α) {pairs : List (String × α)}
    (nodup : (Listing.keys pairs).Nodup) :
    (t.insertAll threshold pairs).toList = Listing.union t.toList pairs := by
  rw [← Listing.foldl_put_eq_union t.nodup_keys nodup]
  clear nodup
  induction pairs generalizing t with
  | nil => rfl
  | cons p pairs ih =>
    rw [List.foldl_cons, ← toList_insert threshold]
    exact ih _

/-- A table that is made of two lists of pairs, each with distinct keys. -/
theorem toList_ofList_append (threshold : Nat) {l r : List (String × α)}
    (left : (Listing.keys l).Nodup) (right : (Listing.keys r).Nodup) :
    (ofList threshold (l ++ r)).toList = Listing.union l r := by
  have first : (empty.insertAll threshold l).toList = l := by
    rw [toList_insertAll_eq threshold empty left]
    exact Listing.nil_union l
  have split : ofList threshold (l ++ r) = (empty.insertAll threshold l).insertAll threshold r :=
    List.foldl_append
  rw [split, toList_insertAll_eq threshold _ right, first]

end Table

end ValueMachine
