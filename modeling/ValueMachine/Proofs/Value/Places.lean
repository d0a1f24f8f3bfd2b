import Mathlib.Algebra.BigOperators.Intervals
import Mathlib.Algebra.Order.BigOperators.Group.Finset
import Mathlib.Data.List.NodupEquivFin
import ValueMachine.Proofs.Value.DeepClone

/-!
# Where copies are held

A deep copy makes a new cell each time it comes to an object with a payload of its own, so no such
cell is put in two places. The places of a handle are counted over all cells that the copy has made:
what is neither a handle of the source nor the noted copy of a container gets one place at most.

Results:
* `spreads_copyWithin`: copying a value adds at most one place, and only for a new cell;
* `Heap.eq_of_places_le_one`: two places of a handle that has one place at most are the same.
-/

namespace ValueMachine

open Value (CopyM copyWithin putField)
open Value.CopyM (perform)

/-! ## Counting -/

namespace Heap

/-- How often the cells from `bound` on hold a handle. -/
def places (h : Heap) (bound : Nat) (w : Value) : Nat :=
  ∑ address ∈ Finset.Ico bound h.size, (h.payload (.cell address)).elements.count w

/-- A new cell that holds nothing adds no place. -/
theorem places_alloc (h : Heap) {bound : Nat} (le : bound ≤ h.size) {c : Cell}
    (empty : c.payload.elements = []) (w : Value) :
    (h.alloc c).2.places bound w = h.places bound w := by
  have last : (h.alloc c).2.payload (.cell h.size) = c.payload :=
    congrArg Cell.payload (h.cell_alloc_self c)
  rw [places, size_alloc, Finset.sum_Ico_succ_top le, last, empty, List.count_nil, Nat.add_zero]
  refine Finset.sum_congr rfl fun address mem => ?_
  rw [payload, h.cell_alloc_of_lt c (Finset.mem_Ico.mp mem).2, payload]

/-- Changing a cell trades the places in it. -/
theorem places_update (h : Heap) {bound address : Nat} (le : bound ≤ address)
    (lt : address < h.size) (change : Payload → Payload) (w : Value) :
    (h.update (.cell address) change).places bound w +
        (h.payload (.cell address)).elements.count w =
      h.places bound w + (change (h.payload (.cell address))).elements.count w := by
  have mem : address ∈ Finset.Ico bound h.size := Finset.mem_Ico.mpr ⟨le, lt⟩
  have holds : h.holds (.cell address) = true := decide_eq_true lt
  have others : ∀ other ∈ (Finset.Ico bound h.size).erase address,
      ((h.update (.cell address) change).payload (.cell other)).elements.count w =
        (h.payload (.cell other)).elements.count w := by
    intro other memOther
    have ne : Value.cell other ≠ .cell address := by
      rintro ⟨⟩
      exact Finset.notMem_erase _ _ memOther
    rw [h.payload_update_of_ne change ne]
  rw [places, places, size_update, ← Finset.add_sum_erase _ _ mem, ← Finset.add_sum_erase _ _ mem,
    Finset.sum_congr rfl others, h.payload_update_self change holds]
  omega

/-- A handle that has one place at most is not in two places. -/
theorem eq_of_places_le_one {h : Heap} {bound : Nat} {w : Value} (one : h.places bound w ≤ 1)
    {address address' i i' : Nat} (le : bound ≤ address) (le' : bound ≤ address')
    (held : (h.payload (.cell address)).elements[i]? = some w)
    (held' : (h.payload (.cell address')).elements[i']? = some w) : address = address' ∧ i = i' := by
  have inside {address i : Nat} (le : bound ≤ address)
      (held : (h.payload (.cell address)).elements[i]? = some w) :
      address ∈ Finset.Ico bound h.size := by
    refine Finset.mem_Ico.mpr ⟨le, Nat.lt_of_not_le fun ge => ?_⟩
    rw [payload_of_size_le ge] at held
    cases held
  have same : address = address' := by
    by_contra ne
    have pair : ({address, address'} : Finset Nat) ⊆ Finset.Ico bound h.size := by
      rw [Finset.insert_subset_iff, Finset.singleton_subset_iff]
      exact ⟨inside le held, inside le' held'⟩
    have two : _ ≤ h.places bound w := Finset.sum_le_sum_of_subset pair
    rw [Finset.sum_pair ne] at two
    have count := List.count_pos_iff.mpr (List.mem_of_getElem? held)
    have count' := List.count_pos_iff.mpr (List.mem_of_getElem? held')
    omega
  subst same
  have single : (h.payload (.cell address)).elements.count w ≤ h.places bound w :=
    Finset.single_le_sum (f := fun address => (h.payload (.cell address)).elements.count w)
      (fun _ _ => Nat.zero_le _) (inside le held)
  have notTwice : ¬(h.payload (.cell address)).elements.Duplicate w := by
    rw [List.duplicate_iff_two_le_count]
    omega
  obtain ⟨lt, eq⟩ := List.getElem?_eq_some_iff.mp held
  obtain ⟨lt', eq'⟩ := List.getElem?_eq_some_iff.mp held'
  refine ⟨rfl, ?_⟩
  by_contra ne
  refine notTwice (List.duplicate_iff_exists_distinct_get.mpr ?_)
  rcases Nat.lt_or_gt_of_ne ne with less | greater
  · exact ⟨⟨i, lt⟩, ⟨i', lt'⟩, less, eq.symm, eq'.symm⟩
  · exact ⟨⟨i', lt'⟩, ⟨i, lt⟩, greater, eq'.symm, eq.symm⟩

end Heap

/-! ## Copying -/

/-- Counts an address once if it is one of those from `first` on, before `last`. -/
def among (first last address : Nat) : Nat := if first ≤ address ∧ address < last then 1 else 0

theorem among_add {first middle last : Nat} (le : first ≤ middle) (le' : middle ≤ last)
    (address : Nat) :
    among first middle address + among middle last address = among first last address := by
  unfold among
  split_ifs <;> omega

theorem among_le {first middle : Nat} (le : first ≤ middle) (last address : Nat) :
    among middle last address ≤ among first last address := by
  unfold among
  split_ifs <;> omega

theorem among_le_one (first last address : Nat) : among first last address ≤ 1 := by
  unfold among
  split_ifs <;> omega

/-- From one state to a later one, a handle that is neither in the source nor the noted copy of a
container gets one place at most, and only if its cell is new. What is in `loose` has been made, but
not put anywhere yet. -/
def Spreads (source : Heap) (s s' : CopyState) (loose : List Value) : Prop :=
  ∀ address, source.size ≤ address → (∀ u, s'.1.get? u ≠ some (.cell address)) →
    s'.2.places source.size (.cell address) + loose.count (.cell address) ≤
      s.2.places source.size (.cell address) + among s.2.size s'.2.size address

variable {source : Heap} {config : Config} {depth : Nat} {copy : Value → CopyM Value}

theorem Spreads.refl (source : Heap) (s : CopyState) : Spreads source s s [] :=
  fun _ _ _ => Nat.le_add_right _ _

theorem Spreads.trans {s s' s'' : CopyState} {loose loose' : List Value} {bound : Nat}
    (spreads : Spreads source s s' loose) (spreads' : Spreads source s' s'' loose')
    (ext' : Extends bound s' s'') (size_le : s.2.size ≤ s'.2.size) :
    Spreads source s s'' (loose ++ loose') := by
  intro address le unnoted
  have first := spreads address le fun u noted => unnoted u (ext'.copied noted)
  have second := spreads' address le unnoted
  have new := among_add size_le ext'.size_le address
  rw [List.count_append]
  omega

theorem count_eq_zero_of_noted {c : Copied} {u w : Value} {address : Nat} (noted : c.get? u = some w)
    (unnoted : ∀ u, c.get? u ≠ some (.cell address)) : [w].count (.cell address) = 0 := by
  refine List.count_eq_zero.mpr fun mem => unnoted u ?_
  rw [noted, List.mem_singleton.mp mem]

theorem count_singleton_le (address other : Nat) :
    [Value.cell address].count (.cell other) ≤ among address (address + 1) other := by
  by_cases eq : address = other
  · subst eq
    rw [among, if_pos ⟨le_rfl, Nat.lt_succ_self _⟩]
    exact List.count_le_length
  · have absent : Value.cell other ∉ [Value.cell address] := by
      rw [List.mem_singleton]
      rintro ⟨⟩
      exact eq rfl
    rw [List.count_eq_zero.mpr absent]
    exact Nat.zero_le _

/-- A computation copies a value and puts what it makes in one place at most. -/
def IsSpreading (source : Heap) (config : Config) (depth : Nat) (copy : Value → CopyM Value)
    (v : Value) : Prop :=
  ∀ (pending : List Value) (s : CopyState), Copying source pending s → s.1.missing < depth →
    Spreads source s (perform (copy v) config s).2 [(perform (copy v) config s).1]

theorem spreads_mapM (items : List Value)
    (copies : ∀ item ∈ items, IsCopying source config depth copy item)
    (each : ∀ item ∈ items, IsSpreading source config depth copy item) :
    ∀ (pending : List Value) (s : CopyState), Copying source pending s → s.1.missing < depth →
      Spreads source s (perform (items.mapM copy) config s).2
        (perform (items.mapM copy) config s).1 := by
  induction items with
  | nil => exact fun _ s _ _ => .refl source s
  | cons item items ih =>
    intro pending s copying few
    obtain ⟨copying₁, ext₁, _⟩ := copies item List.mem_cons_self pending s copying few
    have few₁ := Nat.lt_of_le_of_lt ext₁.missing_le few
    have copies' := fun i hi => copies i (List.mem_cons_of_mem item hi)
    have others := ih copies' (fun i hi => each i (List.mem_cons_of_mem item hi)) pending _ copying₁
      few₁
    obtain ⟨_, ext₂, _⟩ := copying_mapM items copies' pending _ copying₁ few₁
    rw [perform_mapM_cons]
    exact (each item List.mem_cons_self pending s copying few).trans others ext₂ ext₁.size_le

/-- A field that is put into an object is held there. -/
theorem Filling.places_putField (config : Config) {pending : List Value} {v : Value} {address : Nat}
    {done : List (String × Value)} {s : CopyState} (h : Filling source pending v address done s)
    {key : String} (new : key ∉ done.map Prod.fst) (w x : Value) :
    (perform (Value.putField (.cell address) key w : CopyM PUnit) config s).2.2.places source.size x =
      s.2.places source.size x + [w].count x := by
  obtain ⟨fields, hfields, mirrors⟩ := h.fields
  obtain ⟨_, eq, le, lt⟩ := h.copying.fresh h.copied
  cases eq
  rw [map_fst_of_forall₂ mirrors] at new
  have held := s.2.places_update le lt (Payload.withField config.hashThreshold key w) x
  rw [hfields, Payload.withField, Payload.elements, Payload.elements, Table.toList_insert, Listing.put,
    if_neg new, List.map_append, List.count_append] at held
  rw [perform_putField]
  show (s.2.update _ _).places _ _ = s.2.places _ _ + [w].count x
  have last : ([(key, w)].map Prod.snd).count x = [w].count x := rfl
  omega

theorem spreads_forM {v : Value} {pending : List Value} (mem : v ∈ pending) {address : Nat}
    (fields : List (String × Value))
    (copies : ∀ p ∈ fields, IsCopying source config depth copy p.2)
    (each : ∀ p ∈ fields, IsSpreading source config depth copy p.2) :
    ∀ (done : List (String × Value)) (s : CopyState), Filling source pending v address done s →
      ((done ++ fields).map Prod.fst).Nodup → s.1.missing < depth →
      Spreads source s
        (perform (fields.forM fun p => do putField (.cell address) p.1 (← copy p.2)) config s).2 [] := by
  induction fields with
  | nil => exact fun _ s _ _ _ => .refl source s
  | cons p fields ih =>
    intro done s filling nodup few
    have new := key_notMem nodup
    obtain ⟨filling₁, ext₁, stands⟩ := filling.copyItem (copies p List.mem_cons_self) few
    obtain ⟨filling₂, ext₂⟩ := filling₁.putField config mem stands new
    have few₂ := Nat.lt_of_le_of_lt (Nat.le_trans ext₂.missing_le ext₁.missing_le) few
    have nodup₂ : (((done ++ [(p.1, p.2)]) ++ fields).map Prod.fst).Nodup := by
      rw [List.append_assoc]; exact nodup
    have copies' := fun q hq => copies q (List.mem_cons_of_mem p hq)
    obtain ⟨_, ext₃⟩ := filling_forM mem fields copies' _ _ filling₂ nodup₂ few₂
    have others := ih copies' (fun q hq => each q (List.mem_cons_of_mem p hq)) _ _ filling₂ nodup₂ few₂
    have first := each p List.mem_cons_self pending s filling.copying few
    have put : Spreads source s (perform (Value.putField (.cell address) p.1
        (perform (copy p.2) config s).1 : CopyM PUnit) config (perform (copy p.2) config s).2).2 [] := by
      intro x le unnoted
      rw [filling₁.places_putField config new, perform_putField, Heap.size_update, List.count_nil,
        Nat.add_zero]
      exact first x le unnoted
    exact put.trans others ext₃ (Nat.le_trans ext₁.size_le ext₂.size_le)

/-- The copy of an array: the copies of its elements are held by it alone. -/
theorem isSpreading_array {v : Value} {items : Array Value} {pending : List Value} {s : CopyState}
    (copies : ∀ item ∈ items.toList, IsCopying source config depth copy item)
    (each : ∀ item ∈ items.toList, IsSpreading source config depth copy item)
    (payload : source.payload v = .array items) (copying : Copying source pending s)
    (new : s.1.get? v = none) (few : s.1.missing < depth + 1) :
    let copied := perform (items.toList.mapM copy) config
      (s.1.note v (.cell s.2.size), (s.2.alloc (.ofPayload (.array #[]))).2)
    Spreads source s (copied.2.1, copied.2.2.write (.cell s.2.size) (.array copied.1.toArray))
      [.cell s.2.size] := by
  intro copied address le unnoted
  have is : (source.payload v).isContainer = true := by rw [payload]; rfl
  obtain ⟨opened, ext, noted, fewer⟩ := copying.note is new (.ofPayload (.array #[]))
  have fewer' : (s.1.note v (.cell s.2.size)).missing < depth := by omega
  obtain ⟨_, ext₂, _⟩ := copying_mapM items.toList copies (v :: pending) _ opened fewer'
  have spreads := spreads_mapM items.toList copies each (v :: pending) _ opened fewer' address le
    unnoted
  have inside : s.2.size < (s.2.alloc (.ofPayload (.array #[]))).2.size := by
    rw [Heap.size_alloc]; omega
  have empty : copied.2.2.payload (.cell s.2.size) = .array #[] :=
    (ext₂.payload_eq inside).trans (congrArg Cell.payload (s.2.cell_alloc_self _))
  have held := copied.2.2.places_update copying.size_le (Nat.lt_of_lt_of_le inside ext₂.size_le)
    (fun _ => .array copied.1.toArray) (.cell address)
  have before : (copied.2.2.payload (.cell s.2.size)).elements.count (.cell address) = 0 := by
    rw [empty]; rfl
  have unheld : [Value.cell s.2.size].count (.cell address) = 0 :=
    count_eq_zero_of_noted (ext₂.copied noted) unnoted
  have new := among_le (Nat.le_of_lt inside) copied.2.2.size address
  show (copied.2.2.update _ _).places _ _ + _ ≤ _ + among _ (copied.2.2.update _ _).size _
  rw [s.2.places_alloc copying.size_le rfl] at spreads
  rw [Heap.size_update, unheld, Nat.add_zero]
  rw [before, Nat.add_zero] at held
  exact (Nat.le_of_eq held).trans (spreads.trans (Nat.add_le_add_left new _))

/-- The copy of an object: the copies of its values are held by it alone. -/
theorem isSpreading_object {v : Value} {fields : Table Value} {pending : List Value} {s : CopyState}
    (copies : ∀ p ∈ fields.toList, IsCopying source config depth copy p.2)
    (each : ∀ p ∈ fields.toList, IsSpreading source config depth copy p.2)
    (payload : source.payload v = .object fields) (copying : Copying source pending s)
    (new : s.1.get? v = none) (few : s.1.missing < depth + 1) :
    Spreads source s (perform (fields.toList.forM fun p => do
        putField (.cell s.2.size) p.1 (← copy p.2)) config
      (s.1.note v (.cell s.2.size), (s.2.alloc (.ofPayload (.object .empty))).2)).2
      [.cell s.2.size] := by
  intro address le unnoted
  obtain ⟨start, _, fewer⟩ := copying.filling payload new
  have noted := start.copied
  have fewer' : (s.1.note v (.cell s.2.size)).missing < depth := by omega
  have nodup : (([] ++ fields.toList).map Prod.fst).Nodup := fields.nodup_keys
  obtain ⟨_, ext⟩ := filling_forM List.mem_cons_self fields.toList copies [] _ start nodup fewer'
  have spreads := spreads_forM List.mem_cons_self fields.toList copies each [] _ start nodup fewer'
    address le unnoted
  have unheld : [Value.cell s.2.size].count (.cell address) = 0 :=
    count_eq_zero_of_noted (ext.copied noted) unnoted
  have opened : s.2.size ≤ (s.2.alloc (.ofPayload (.object .empty))).2.size := by
    rw [Heap.size_alloc]; omega
  rw [s.2.places_alloc copying.size_le rfl] at spreads
  rw [unheld]
  exact spreads.trans (Nat.add_le_add_left (among_le opened _ _) _)

/-- Copying a value adds at most one place for a handle that is neither in the source nor a noted
copy: only the copy of an object with a payload of its own is such a handle, and it is made for the
place that is being copied. -/
theorem spreads_copyWithin (depth : Nat) : ∀ v : Value,
    (∀ u, source.Reaches Payload.elements v u → source.names u = true) →
    IsSpreading source config depth (copyWithin depth) v := by
  induction depth with
  | zero => intro v _ pending s _ few; omega
  | succ depth ih =>
    rintro v named pending ⟨c, h⟩ copying few
    have same : h.payload v = source.payload v := copying.payload_eq (named v .root)
    have each : ∀ item ∈ (source.payload v).elements,
        IsCopying source config depth (copyWithin depth) item ∧
        IsSpreading source config depth (copyWithin depth) item := by
      intro item mem
      have named' := fun u reached => named u (Heap.Reaches.of_edge mem reached)
      exact ⟨isCopying_copyWithin depth item named', ih item named'⟩
    rw [perform_copyWithin]
    cases noted : c.get? v with
    | some copy =>
      intro address _ unnoted
      rw [count_eq_zero_of_noted noted unnoted]
      exact Nat.le_add_right _ _
    | none =>
      dsimp only
      rw [same]
      cases payload : source.payload v with
      | array items =>
        rw [payload] at each
        exact isSpreading_array (fun i hi => (each i hi).1) (fun i hi => (each i hi).2) payload copying
          noted few
      | object fields =>
        rw [payload] at each
        have inside {p : String × Value} (hp : p ∈ fields.toList) :
            p.2 ∈ (Payload.object fields).elements := List.mem_map_of_mem hp
        exact isSpreading_object (s := (c, h)) (fun p hp => (each p.2 (inside hp)).1)
          (fun p hp => (each p.2 (inside hp)).2) payload copying noted few
      | extension e =>
        intro address _ _
        dsimp only
        rw [h.places_alloc copying.size_le rfl, Heap.size_alloc]
        exact Nat.add_le_add_left (count_singleton_le h.size address) _
      | _ =>
        intro address le _
        have unheld : [v].count (.cell address) = 0 := by
          refine List.count_eq_zero.mpr fun mem => Nat.not_lt.mpr le ?_
          have lt := named v .root
          rw [← List.mem_singleton.mp mem] at lt
          exact of_decide_eq_true lt
        dsimp only
        rw [unheld]
        exact Nat.le_add_right _ _

end ValueMachine
