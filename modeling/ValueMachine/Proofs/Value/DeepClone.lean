import Mathlib.Data.Set.Function
import ValueMachine.Proofs.Heap.Boxes
import ValueMachine.Proofs.Value.Copying

/-!
# Deep copies keep the shape of a graph

Results:
* `isCopying_copyWithin`: copying a value keeps the invariant and answers what stands for the value,
  if the depth exceeds the number of cells without a copy;
* `Copying.bijOn`: the containers of the graph of a value and those of the graph of its copy
  correspond one to one;
* `isDeepCopy_deepClone`: a deep copy has the graph of its source, in new cells.
-/

namespace ValueMachine

open Value (CopyM copyWithin putField deepClone)
open Value.CopyM (perform)

/-! ## One value -/

/-- A computation copies a value: while fewer than `depth` cells have no copy, it keeps the
invariant and the cells that were there, and answers what stands for the value. -/
def IsCopying (source : Heap) (config : Config) (depth : Nat) (copy : Value → CopyM Value)
    (v : Value) : Prop :=
  ∀ (pending : List Value) (s : CopyState), Copying source pending s → s.1.missing < depth →
    Copying source pending (perform (copy v) config s).2 ∧
    Extends s.2.size s (perform (copy v) config s).2 ∧
    Stands source (perform (copy v) config s).2 v (perform (copy v) config s).1

variable {source : Heap} {config : Config} {depth : Nat} {copy : Value → CopyM Value}

/-- The elements of an array are copied one after the other. -/
theorem copying_mapM (items : List Value) :
    (∀ item ∈ items, IsCopying source config depth copy item) →
    ∀ (pending : List Value) (s : CopyState), Copying source pending s → s.1.missing < depth →
      Copying source pending (perform (items.mapM copy) config s).2 ∧
      Extends s.2.size s (perform (items.mapM copy) config s).2 ∧
      List.Forall₂ (Stands source (perform (items.mapM copy) config s).2) items
        (perform (items.mapM copy) config s).1 := by
  induction items with
  | nil => intro _ pending s h _; exact ⟨h, .refl _ s, .nil⟩
  | cons item items ih =>
    intro each pending s h few
    obtain ⟨h₁, ext₁, stands⟩ := each item List.mem_cons_self pending s h few
    obtain ⟨h₂, ext₂, others⟩ := ih (fun i hi => each i (List.mem_cons_of_mem item hi)) pending _ h₁
      (Nat.lt_of_le_of_lt ext₁.missing_le few)
    rw [perform_mapM_cons]
    exact ⟨h₂, ext₁.trans ext₂ ext₁.size_le, .cons (stands.mono ext₂) others⟩

/-- What a pending copy of an object holds while its fields are copied. -/
structure Filling (source : Heap) (pending : List Value) (v : Value) (address : Nat)
    (done : List (String × Value)) (s : CopyState) : Prop where
  copying : Copying source pending s
  copied : s.1.get? v = some (.cell address)
  fields : ∃ fields, s.2.payload (.cell address) = .object fields ∧
    List.Forall₂ (fun p p' => p.1 = p'.1 ∧ Stands source s p.2 p'.2) done fields.toList

theorem perform_putField (object : Value) (key : String) (v : Value) (s : CopyState) :
    (perform (putField object key v : CopyM PUnit) config s).2 =
      (s.1, s.2.update object (Payload.withField config.hashThreshold key v)) := rfl

/-- A field whose key is new goes to the end of the copy. -/
theorem Filling.putField (config : Config) {pending : List Value} {v : Value} {address : Nat}
    {done : List (String × Value)} {s : CopyState} (h : Filling source pending v address done s)
    (mem : v ∈ pending) {key : String} {item w : Value} (stands : Stands source s item w)
    (new : key ∉ done.map Prod.fst) :
    Filling source pending v address (done ++ [(key, item)])
        (perform (Value.putField (.cell address) key w : CopyM PUnit) config s).2 ∧
      Extends address s (perform (Value.putField (.cell address) key w : CopyM PUnit) config s).2 := by
  obtain ⟨copying, copied, fields, hfields, mirrors⟩ := h
  have notExtension : ∀ e, s.2.payload (.cell address) ≠ .extension e := by
    intro e he
    rw [hfields] at he; cases he
  have kept : ∀ u w', Stands source s u w' → Stands source (s.1, s.2.update (.cell address)
      (Payload.withField config.hashThreshold key w)) u w' :=
    fun _ _ => Copying.stands_update notExtension _
  obtain ⟨_, eq, le, lt⟩ := copying.fresh copied
  cases eq
  rw [perform_putField]
  refine ⟨⟨copying.update mem copied notExtension _, copied,
    (fields.insert config.hashThreshold key w).2, ?_, ?_⟩, ?_⟩
  · have holds : s.2.holds (.cell address) = true := decide_eq_true lt
    have := s.2.payload_update_self (Payload.withField config.hashThreshold key w) holds
    rw [hfields] at this
    exact this
  · rw [map_fst_of_forall₂ mirrors] at new
    rw [Table.toList_insert, Listing.put, if_neg new]
    exact List.rel_append (mirrors.imp fun _ _ h => ⟨h.1, kept _ _ h.2⟩)
      (.cons ⟨rfl, kept _ _ stands⟩ .nil)
  · exact extends_update s address _

theorem Filling.lt {pending : List Value} {v : Value} {address : Nat}
    {done : List (String × Value)} {s : CopyState} (h : Filling source pending v address done s) :
    address < s.2.size := by
  obtain ⟨_, eq, _, lt⟩ := h.copying.fresh h.copied
  cases eq
  exact lt

/-- Copying the value of a field leaves the object alone, which is an older cell. -/
theorem Filling.copyItem {pending : List Value} {v : Value} {address : Nat}
    {done : List (String × Value)} {s : CopyState} (h : Filling source pending v address done s)
    {item : Value} (isCopying : IsCopying source config depth copy item)
    (few : s.1.missing < depth) :
    Filling source pending v address done (perform (copy item) config s).2 ∧
      Extends s.2.size s (perform (copy item) config s).2 ∧
      Stands source (perform (copy item) config s).2 item (perform (copy item) config s).1 := by
  obtain ⟨copying, ext, stands⟩ := isCopying pending s h.copying few
  obtain ⟨object, hobject, mirrors⟩ := h.fields
  exact ⟨⟨copying, ext.copied h.copied, object, (ext.payload_eq h.lt).trans hobject,
    mirrors.imp fun _ _ h => ⟨h.1, h.2.mono ext⟩⟩, ext, stands⟩

theorem key_notMem {p : String × Value} {done fields : List (String × Value)}
    (nodup : ((done ++ p :: fields).map Prod.fst).Nodup) : p.1 ∉ done.map Prod.fst := by
  rw [List.map_append, List.map_cons, List.nodup_append] at nodup
  exact fun mem => nodup.2.2 _ mem _ List.mem_cons_self rfl

/-- The fields of an object are copied one after the other. -/
theorem filling_forM {v : Value} {pending : List Value} (mem : v ∈ pending) {address : Nat}
    (fields : List (String × Value)) :
    (∀ p ∈ fields, IsCopying source config depth copy p.2) →
    ∀ (done : List (String × Value)) (s : CopyState), Filling source pending v address done s →
      ((done ++ fields).map Prod.fst).Nodup → s.1.missing < depth →
      Filling source pending v address (done ++ fields)
          (perform (fields.forM fun p => do putField (.cell address) p.1 (← copy p.2)) config s).2 ∧
        Extends address s
          (perform (fields.forM fun p => do putField (.cell address) p.1 (← copy p.2)) config s).2 := by
  induction fields with
  | nil =>
    intro _ done s h _ _
    rw [List.append_nil]
    exact ⟨h, .refl address s⟩
  | cons p fields ih =>
    intro each done s h nodup few
    obtain ⟨filling₁, ext₁, stands⟩ := h.copyItem (each p List.mem_cons_self) few
    obtain ⟨filling₂, ext₂⟩ := filling₁.putField config mem stands (key_notMem nodup)
    have few₂ := Nat.lt_of_le_of_lt (Nat.le_trans ext₂.missing_le ext₁.missing_le) few
    obtain ⟨filling₃, ext₃⟩ := ih (fun q hq => each q (List.mem_cons_of_mem p hq)) _ _ filling₂
      (by rw [List.append_assoc]; exact nodup) few₂
    rw [List.append_assoc] at filling₃
    exact ⟨filling₃, ((ext₁.mono (Nat.le_of_lt h.lt)).trans ext₂ le_rfl).trans ext₃ le_rfl⟩

/-! ## The graph -/

/-- The copy of an array: it is noted empty and gets its elements when they have been copied. -/
theorem isCopying_array {v : Value} {items : Array Value} {pending : List Value} {s : CopyState}
    (each : ∀ item ∈ items.toList, IsCopying source config depth copy item)
    (payload : source.payload v = .array items) (copying : Copying source pending s)
    (new : s.1.get? v = none) (few : s.1.missing < depth + 1) :
    let copied := perform (items.toList.mapM copy) config
      (s.1.note v (.cell s.2.size), (s.2.alloc (.ofPayload (.array #[]))).2)
    let last : CopyState := (copied.2.1, copied.2.2.write (.cell s.2.size) (.array copied.1.toArray))
    Copying source pending last ∧ Extends s.2.size s last ∧
      Stands source last v (.cell s.2.size) := by
  intro copied last
  have is : (source.payload v).isContainer = true := by rw [payload]; rfl
  obtain ⟨opened, ext, noted, fewer⟩ := copying.note is new (.ofPayload (.array #[]))
  obtain ⟨copying₂, ext₂, stands⟩ := copying_mapM items.toList each (v :: pending) _ opened
    (by show (s.1.note v (.cell s.2.size)).missing < depth; omega)
  have noted₂ : copied.2.1.get? v = some (.cell s.2.size) := ext₂.copied noted
  have inside : s.2.size < (s.2.alloc (.ofPayload (.array #[]))).2.size := by
    rw [Heap.size_alloc]; omega
  have empty : copied.2.2.payload (.cell s.2.size) = .array #[] :=
    (ext₂.payload_eq inside).trans (congrArg Cell.payload (s.2.cell_alloc_self _))
  have notExtension : ∀ e, copied.2.2.payload (.cell s.2.size) ≠ .extension e := by
    intro e he
    rw [empty] at he; cases he
  have written : Copying source (v :: pending) last :=
    copying₂.update List.mem_cons_self noted₂ notExtension _
  have holds : copied.2.2.holds (.cell s.2.size) = true :=
    decide_eq_true (Nat.lt_of_lt_of_le inside ext₂.size_le)
  have filled : last.2.payload (.cell s.2.size) = .array copied.1.toArray :=
    copied.2.2.payload_update_self _ holds
  refine ⟨written.fill noted₂ ?_, ?_, .container is noted₂⟩
  · rw [payload, filled]
    exact .array (stands.imp fun _ _ => Copying.stands_update notExtension _)
  · exact (ext.trans ext₂ (Nat.le_of_lt inside)).trans (extends_update copied.2 _ _) le_rfl

/-- The copy of an object is noted empty. -/
theorem Copying.filling {v : Value} {fields : Table Value} {pending : List Value} {s : CopyState}
    (copying : Copying source pending s) (payload : source.payload v = .object fields)
    (new : s.1.get? v = none) :
    let first : CopyState :=
      (s.1.note v (.cell s.2.size), (s.2.alloc (.ofPayload (.object .empty))).2)
    Filling source (v :: pending) v s.2.size [] first ∧ Extends s.2.size s first ∧
      (s.1.note v (.cell s.2.size)).missing < s.1.missing := by
  have is : (source.payload v).isContainer = true := by rw [payload]; rfl
  obtain ⟨opened, ext, noted, fewer⟩ := copying.note is new (.ofPayload (.object .empty))
  have empty : (s.2.alloc (.ofPayload (.object .empty))).2.payload (.cell s.2.size) =
      .object .empty := congrArg Cell.payload (s.2.cell_alloc_self _)
  have none : (Table.empty : Table Value).toList = [] := rfl
  refine ⟨⟨opened, noted, .empty, empty, ?_⟩, ext, fewer⟩
  rw [none]; exact .nil

/-- The copy of an object: it is noted empty and gets each field when its value has been copied. -/
theorem isCopying_object {v : Value} {fields : Table Value} {pending : List Value} {s : CopyState}
    (each : ∀ p ∈ fields.toList, IsCopying source config depth copy p.2)
    (payload : source.payload v = .object fields) (copying : Copying source pending s)
    (new : s.1.get? v = none) (few : s.1.missing < depth + 1) :
    let last := (perform (fields.toList.forM fun p => do
        putField (.cell s.2.size) p.1 (← copy p.2)) config
      (s.1.note v (.cell s.2.size), (s.2.alloc (.ofPayload (.object .empty))).2)).2
    Copying source pending last ∧ Extends s.2.size s last ∧
      Stands source last v (.cell s.2.size) := by
  intro last
  have is : (source.payload v).isContainer = true := by rw [payload]; rfl
  obtain ⟨start, ext, fewer⟩ := copying.filling payload new
  have noted := start.copied
  have fewer' : (s.1.note v (.cell s.2.size)).missing < depth := by omega
  have nodup : (([] ++ fields.toList).map Prod.fst).Nodup := fields.nodup_keys
  obtain ⟨⟨copying₂, noted₂, fields', hfields', mirrors⟩, ext₂⟩ :=
    filling_forM List.mem_cons_self fields.toList each [] _ start nodup fewer'
  refine ⟨copying₂.fill noted₂ ?_, ext.trans ext₂ le_rfl, .container is noted₂⟩
  rw [payload, hfields']
  exact .object mirrors

/-- Copying a value keeps the invariant and answers what stands for it. The depth is enough: every
container that is entered takes one cell from those without a copy. -/
theorem isCopying_copyWithin (depth : Nat) : ∀ v : Value,
    (∀ u, source.Reaches Payload.elements v u → source.names u = true) →
    IsCopying source config depth (copyWithin depth) v := by
  induction depth with
  | zero => intro v _ pending s _ few; omega
  | succ depth ih =>
    rintro v named pending ⟨c, h⟩ copying few
    have same : h.payload v = source.payload v := copying.payload_eq (named v .root)
    have each : ∀ item ∈ (source.payload v).elements,
        IsCopying source config depth (copyWithin depth) item := by
      intro item mem
      exact ih item fun u reached => named u (reached.of_edge mem)
    rw [perform_copyWithin]
    cases noted : c.get? v with
    | some copy => exact ⟨copying, .refl _ _, .container (copying.container noted) noted⟩
    | none =>
      dsimp only
      rw [same]
      cases payload : source.payload v with
      | array items =>
        rw [payload] at each
        exact isCopying_array each payload copying noted few
      | object fields =>
        rw [payload] at each
        have each' : ∀ p ∈ fields.toList, IsCopying source config depth (copyWithin depth) p.2 :=
          fun p hp => each p.2 (List.mem_map_of_mem hp)
        dsimp only
        exact isCopying_object (s := (c, h)) each' payload copying noted few
      | extension e =>
        dsimp only
        have holds : h.size < (h.alloc (.ofPayload (.extension e))).2.size := by
          rw [Heap.size_alloc]; omega
        have alloc := extends_alloc (c, h) (.ofPayload (.extension e))
        refine ⟨copying.alloc _, alloc, .extension payload copying.size_le holds ?_⟩
        exact congrArg Cell.payload (h.cell_alloc_self _)
      | _ =>
        refine ⟨copying, .refl _ _, .leaf (by rw [payload]; rfl) fun e he => ?_⟩
        rw [payload] at he; cases he

/-! ## The correspondence -/

/-- The arrays and objects in the graph of a value. -/
def Heap.containers (h : Heap) (root : Value) : Set Value :=
  {u | h.Reaches Payload.elements root u ∧ (h.payload u).isContainer = true}

/-- What a value became, where `f` gives the copies of the containers. An object that has a payload
of its own became a new one with that payload, and all else is the same handle. -/
inductive CopiedAs (h h' : Heap) (f : Value → Value) : Value → Value → Prop
  | container {u : Value} (is : (h.payload u).isContainer = true) : CopiedAs h h' f u (f u)
  | extension {u w : Value} {e : Extension} (is : h.payload u = .extension e)
    (new : h.holds w = false) (holds : h'.holds w = true) (eq : h'.payload w = .extension e) :
    CopiedAs h h' f u w
  | leaf {u : Value} (notContainer : (h.payload u).isContainer = false)
    (notExtension : ∀ e, h.payload u ≠ .extension e) : CopiedAs h h' f u u

/-- The copy that was noted for a container. -/
def Copied.of (c : Copied) (u : Value) : Value := (c.get? u).getD u

theorem Copied.of_eq {c : Copied} {u w : Value} (copied : c.get? u = some w) : c.of u = w := by
  rw [of, copied]; rfl

theorem Stands.copied {s : CopyState} {u w : Value} (h : Stands source s u w)
    (is : (source.payload u).isContainer = true) : s.1.get? u = some w := by
  cases h with
  | container _ copied => exact copied
  | extension eq => rw [eq] at is; cases is
  | leaf notContainer => rw [notContainer] at is; cases is

theorem Stands.copiedAs {s : CopyState} {u w : Value} (h : Stands source s u w) :
    CopiedAs source s.2 s.1.of u w := by
  cases h with
  | container is copied => exact Copied.of_eq copied ▸ .container is
  | extension is fresh lt eq =>
    exact .extension is (decide_eq_false (Nat.not_lt.mpr fresh)) (decide_eq_true lt) eq
  | leaf notContainer notExtension => exact .leaf notContainer notExtension

section Finished

variable {s : CopyState} (copying : Copying source [] s)

include copying

/-- What stands for a container mirrors it. -/
theorem Copying.mirrors {u w : Value} (stands : Stands source s u w)
    (is : (source.payload u).isContainer = true) :
    Mirrors (Stands source s) (source.payload u) (s.2.payload w) :=
  copying.filled (stands.copied is) List.not_mem_nil

/-- Only a container is copied as a container. -/
theorem Copying.isContainer {u w : Value} (stands : Stands source s u w)
    (named : source.names u = true) (is : (s.2.payload w).isContainer = true) :
    (source.payload u).isContainer = true := by
  cases stands with
  | container is' => exact is'
  | extension _ _ _ eq => rw [eq] at is; cases is
  | leaf => rwa [copying.payload_eq named] at is

/-- Every path from a value is followed in its copy. -/
theorem Copying.reaches {v w u : Value} (root : Stands source s v w)
    (reached : source.Reaches Payload.elements v u) :
    ∃ w', s.2.Reaches Payload.elements w w' ∧ Stands source s u w' := by
  induction reached with
  | root => exact ⟨w, .root, root⟩
  | @edge u item _ mem ih =>
    obtain ⟨w', reached', stands⟩ := ih
    have is : (source.payload u).isContainer = true := Payload.isContainer_of_mem mem
    obtain ⟨item', mem', stands'⟩ := (copying.mirrors stands is).exists_copy mem
    exact ⟨item', reached'.edge mem', stands'⟩

/-- Every path from the copy of a value is followed in the value. -/
theorem Copying.reaches_source {v w w' : Value} (root : Stands source s v w)
    (named : ∀ u, source.Reaches Payload.elements v u → source.names u = true)
    (reached : s.2.Reaches Payload.elements w w') :
    ∃ u, source.Reaches Payload.elements v u ∧ Stands source s u w' := by
  induction reached with
  | root => exact ⟨v, .root, root⟩
  | @edge w' item' _ mem' ih =>
    obtain ⟨u, reached, stands⟩ := ih
    have is := copying.isContainer stands (named u reached) (Payload.isContainer_of_mem mem')
    obtain ⟨item, mem, stands'⟩ := (copying.mirrors stands is).exists_source mem'
    exact ⟨item, reached.edge mem, stands'⟩

/-- The containers of a graph and those of the graph of the copy correspond one to one. -/
theorem Copying.bijOn {v w : Value} (root : Stands source s v w)
    (named : ∀ u, source.Reaches Payload.elements v u → source.names u = true) :
    Set.BijOn s.1.of (source.containers v) (s.2.containers w) := by
  have stands : ∀ u ∈ source.containers v, s.2.Reaches Payload.elements w (s.1.of u) ∧
      Stands source s u (s.1.of u) := by
    rintro u ⟨reached, is⟩
    obtain ⟨w', reached', stands⟩ := copying.reaches root reached
    rw [Copied.of_eq (stands.copied is)]
    exact ⟨reached', stands⟩
  refine ⟨fun u mem => ?_, fun u mem u' mem' eq => ?_, fun w' mem' => ?_⟩
  · exact ⟨(stands u mem).1, (copying.mirrors (stands u mem).2 mem.2).isContainer⟩
  · have copied := (stands u mem).2.copied mem.2
    have copied' := (stands u' mem').2.copied mem'.2
    exact copying.injective copied (eq ▸ copied')
  · obtain ⟨u, reached, stands'⟩ := copying.reaches_source root named mem'.1
    have is := copying.isContainer stands' (named u reached) mem'.2
    exact ⟨u, ⟨reached, is⟩, Copied.of_eq (stands'.copied is)⟩

end Finished

/-! ## Deep copies -/

theorem Heap.kind_eq {h : Heap} {v : Value} (is : (h.payload v).isContainer = true) :
    h.kind v = (h.payload v).ownKind := by
  rw [Heap.kind, Heap.contentPayload, Heap.content_of_isContainer is]

theorem Mirrors.ownKind {R : Value → Value → Prop} {p p' : Payload} (h : Mirrors R p p') :
    p'.ownKind = p.ownKind := by
  cases h <;> rfl

/-- The graph of `w` in the later heap is a copy of the graph of `v`. -/
structure IsDeepCopy (h h' : Heap) (f : Value → Value) (v w : Value) : Prop where
  root : CopiedAs h h' f v w
  bijOn : Set.BijOn f (h.containers v) (h'.containers w)
  kind : ∀ u ∈ h.containers v, h'.kind (f u) = h.kind u
  /-- Elements, keys and their order are those of the source. -/
  mirrors : ∀ u ∈ h.containers v, Mirrors (CopiedAs h h' f) (h.payload u) (h'.payload (f u))
  new : ∀ w' ∈ h'.containers w, h.holds w' = false
  frame : ∀ u, h.holds u = true → h'.cell u = h.cell u

/-- A finished copy is a deep copy. -/
theorem Copying.isDeepCopy {s : CopyState} (copying : Copying source [] s) {v w : Value}
    (root : Stands source s v w)
    (named : ∀ u, source.Reaches Payload.elements v u → source.names u = true) :
    IsDeepCopy source s.2 s.1.of v w := by
  have bijOn := copying.bijOn root named
  have stands : ∀ u ∈ source.containers v, Stands source s u (s.1.of u) := by
    rintro u ⟨reached, is⟩
    obtain ⟨w', _, stands⟩ := copying.reaches root reached
    rw [Copied.of_eq (stands.copied is)]
    exact stands
  refine ⟨root.copiedAs, bijOn, fun u mem => ?_, fun u mem => ?_, fun w' mem' => ?_,
    fun u holds => ?_⟩
  · have mirrors := copying.mirrors (stands u mem) mem.2
    rw [Heap.kind_eq mirrors.isContainer, mirrors.ownKind, Heap.kind_eq mem.2]
  · exact (copying.mirrors (stands u mem) mem.2).mono fun _ _ stands => stands.copiedAs
  · obtain ⟨u, mem, rfl⟩ := bijOn.surjOn mem'
    obtain ⟨address, eq, le, _⟩ := copying.fresh ((stands u mem).copied mem.2)
    rw [eq]
    exact decide_eq_false (Nat.not_lt.mpr le)
  · cases u with
    | cell address => exact copying.frame (of_decide_eq_true holds)
    | _ => cases holds

/-- A deep copy ends when every copy that it has begun is finished. -/
theorem copying_deepClone (config : Config) (h : Heap) (v : Value)
    (named : ∀ u, h.Reaches Payload.elements v u → h.names u = true) :
    let last := perform (copyWithin (h.size + 1) v) config (Copied.start h, h)
    Copying h [] last.2 ∧ Stands h last.2 v last.1 := by
  have isCopying : IsCopying h config (h.size + 1) (copyWithin (h.size + 1)) v :=
    isCopying_copyWithin (h.size + 1) v named
  obtain ⟨copying, -, stands⟩ :=
    isCopying [] (Copied.start h, h) (.start h) (missing_start_lt h)
  exact ⟨copying, stands⟩

/-- The containers of the graph of a value and those of the graph of its deep copy correspond one to
one, and the copy leaves every cell as it was. -/
theorem isDeepCopy_deepClone (config : Config) (h : Heap) (v : Value)
    (named : ∀ u, h.Reaches Payload.elements v u → h.names u = true) :
    let (w, h') := ((deepClone v).run config).run h
    ∃ f, IsDeepCopy h h' f v w := by
  obtain ⟨copying, stands⟩ := copying_deepClone config h v named
  exact ⟨_, copying.isDeepCopy stands named⟩

/-- An array that holds itself and, twice, an object that leads back to it. -/
def knot : Heap :=
  .ofCells #[.ofPayload (.array #[.cell 0, .cell 1, .cell 1, .cell 2]),
    .ofPayload (.object (.ofList 8 [("back", .cell 0), ("size", .small 2)])),
    .ofPayload (.text false "leaf")]

theorem isDeepCopy_deepClone_knot :
    (∀ u, knot.Reaches Payload.elements (.cell 0) u → knot.names u = true) ∧
      ∃ f, IsDeepCopy knot (((deepClone (.cell 0)).run .standard).run knot).2 f (.cell 0)
        (((deepClone (.cell 0)).run .standard).run knot).1 := by
  have closed : knot.IsClosed := by
    unfold Heap.IsClosed
    decide
  have named : ∀ u, knot.Reaches Payload.elements (.cell 0) u → knot.names u = true :=
    fun _ => Heap.Reaches.names closed rfl
  exact ⟨named, isDeepCopy_deepClone .standard knot (.cell 0) named⟩

end ValueMachine
