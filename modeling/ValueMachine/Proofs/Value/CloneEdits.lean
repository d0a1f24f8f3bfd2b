import ValueMachine.Proofs.Value.Edits
import ValueMachine.Proofs.Value.Places

/-!
# Deep copies under edits

Edits of a deep copy leave the value alone that it was made of. The two are twins if each object with a
payload of its own is held in one place: then edits have the same outcome on both. An object that is held
in two places becomes two objects in the copy, and an edit through one place does not show at the other.

Results:
* `Finished.alone`: what a copy leads to is new, or cannot be written;
* `Finished.twins`: a value and its copy are twins;
* `deepClone_edits`: what edits along paths do to a copy.
-/

namespace ValueMachine

open Value (deepClone copyWithin)
open Value.CopyM (perform)

/-- In the graph of a value, each object with a payload of its own is held in one place. -/
def Heap.HoldsOnce (h : Heap) (root : Value) : Prop :=
  ∀ (u u' w : Value) (i i' : Nat) (e : Extension),
    h.Reaches Payload.elements root u → h.Reaches Payload.elements root u' →
    h.payload w = .extension e → (h.payload u).elements[i]? = some w →
    (h.payload u').elements[i']? = some w → u = u' ∧ i = i'

/-! ## The correspondence -/

/-- What is copied and its copy, or what a container holds at a place and what its copy holds there. -/
inductive SamePlace (source : Heap) (s : CopyState) (v c : Value) : Value → Value → Prop
  | root : SamePlace source s v c v c
  | element {a b u w : Value} {i : Nat} (reached : source.Reaches Payload.elements v a)
    (copied : s.1.get? a = some b) (held : (source.payload a).elements[i]? = some u)
    (held' : (s.2.payload b).elements[i]? = some w) : SamePlace source s v c u w

/-- Containers correspond to their copies, objects with a payload of their own to what was made for
the same place, and leaves to themselves. -/
inductive Corresponds (source : Heap) (s : CopyState) (v c : Value) : Value → Value → Prop
  | container {u w : Value} (reached : source.Reaches Payload.elements v u)
    (copied : s.1.get? u = some w) : Corresponds source s v c u w
  | extension {u w : Value} {e : Extension} (is : source.payload u = .extension e)
    (place : SamePlace source s v c u w) : Corresponds source s v c u w
  | leaf {u : Value} (is : s.2.IsLeaf u) : Corresponds source s v c u u

/-- A copy is complete, and what was made for one place is held there only. -/
structure Finished (source : Heap) (s : CopyState) (v c : Value) : Prop where
  copying : Copying source [] s
  root : Stands source s v c
  named (u : Value) : source.Reaches Payload.elements v u → source.names u = true
  places_le {address : Nat} : source.size ≤ address → (∀ u, s.1.get? u ≠ some (.cell address)) →
    s.2.places source.size (.cell address) ≤ 1

theorem finished_deepClone (config : Config) (h : Heap) (v : Value)
    (named : ∀ u, h.Reaches Payload.elements v u → h.names u = true) :
    ∃ copied, Finished h (copied, (HeapM.perform (deepClone v) config h).2) v
      (HeapM.perform (deepClone v) config h).1 := by
  have isSpreading : IsSpreading h config (h.size + 1) (copyWithin (h.size + 1)) v :=
    spreads_copyWithin (h.size + 1) v named
  obtain ⟨copying, stands⟩ := copying_deepClone config h v named
  have spreads := isSpreading [] (Copied.start h, h) (.start h) (missing_start_lt h)
  refine ⟨_, copying, stands, named, fun {address} le unnoted => ?_⟩
  have counted := spreads address le unnoted
  have none : h.places h.size (.cell address) = 0 := by
    rw [Heap.places, Finset.Ico_self, Finset.sum_empty]
  have one := among_le_one h.size
    (perform (copyWithin (h.size + 1) v) config (Copied.start h, h)).2.2.size address
  have le_places : (perform (copyWithin (h.size + 1) v) config (Copied.start h, h)).2.2.places h.size
      (.cell address) ≤ _ := (Nat.le_add_right _ _).trans counted
  exact le_places.trans (by rw [none, Nat.zero_add]; exact one)

/-- An object with a payload of its own has no elements, so nothing else is reached from it. -/
theorem not_element_of_extension {h : Heap} {v a u : Value} {e : Extension} {i : Nat}
    (is : h.payload v = .extension e) (reached : h.Reaches Payload.elements v a) :
    (h.payload a).elements[i]? ≠ some u := by
  have only : a = v := by
    induction reached with
    | root => rfl
    | edge _ mem ih =>
      rw [ih, is] at mem
      cases mem
  rw [only, is]
  exact fun held => nomatch held

theorem SamePlace.functional {source : Heap} {s : CopyState} {v c : Value}
    (once : source.HoldsOnce v) {u w w' : Value} {e : Extension} (is : source.payload u = .extension e)
    (place : SamePlace source s v c u w) (place' : SamePlace source s v c u w') : w = w' := by
  cases place with
  | root =>
    cases place' with
    | root => rfl
    | element reached _ held _ => exact absurd held (not_element_of_extension is reached)
  | element reached copied held held₁ =>
    cases place' with
    | root => exact absurd held (not_element_of_extension is reached)
    | element reached' copied' held' held₁' =>
      obtain ⟨rfl, rfl⟩ := once _ _ _ _ _ _ reached reached' is held held'
      obtain rfl := Option.some.inj (copied.symm.trans copied')
      exact Option.some.inj (held₁.symm.trans held₁')

theorem SamePlace.reached {source : Heap} {s : CopyState} {v c u w : Value}
    (place : SamePlace source s v c u w) : source.Reaches Payload.elements v u := by
  cases place with
  | root => exact .root
  | element reached _ held _ => exact reached.edge (List.mem_of_getElem? held)

namespace Finished

variable {source : Heap} {s : CopyState} {v c : Value} (finished : Finished source s v c)

include finished

/-- What is held at the same place stands for each other. -/
theorem stands {u w : Value} (place : SamePlace source s v c u w) : Stands source s u w := by
  cases place with
  | root => exact finished.root
  | @element a b _ _ i reached copied held held' =>
    have mirrors := finished.copying.filled copied List.not_mem_nil
    have related := rel_getElem? mirrors.elements i
    rw [held, held'] at related
    cases related with | some stands => exact stands

theorem payload_eq {u : Value} (reached : source.Reaches Payload.elements v u) :
    s.2.payload u = source.payload u := finished.copying.payload_eq (finished.named u reached)

/-- The copy of an object with a payload of its own is a new cell, which no container is copied to. -/
theorem extension {u w : Value} {e : Extension} (is : source.payload u = .extension e)
    (place : SamePlace source s v c u w) : ∃ address, w = .cell address ∧ source.size ≤ address ∧
      s.2.payload w = .extension e ∧ ∀ u, s.1.get? u ≠ some w := by
  cases finished.stands place with
  | container isContainer => rw [is] at isContainer; cases isContainer
  | @extension e' address is' fresh lt eq =>
    rw [is] at is'
    cases is'
    refine ⟨address, rfl, fresh, eq, fun u noted => ?_⟩
    have container := (finished.copying.filled noted List.not_mem_nil).isContainer
    rw [eq] at container
    cases container
  | leaf _ notExtension => exact absurd is (notExtension e)

theorem samePlace_injective {u u' w : Value} {e e' : Extension}
    (is : source.payload u = .extension e) (is' : source.payload u' = .extension e')
    (place : SamePlace source s v c u w) (place' : SamePlace source s v c u' w) : u = u' := by
  obtain ⟨address, rfl, le, _, unnoted⟩ := finished.extension is place
  cases place with
  | root =>
    cases place' with
    | root => rfl
    | element reached _ held _ => exact absurd held (not_element_of_extension is reached)
  | element reached copied held held₁ =>
    cases place' with
    | root => exact absurd held (not_element_of_extension is' reached)
    | element reached' copied' held' held₁' =>
      obtain ⟨b, rfl, le_b, _⟩ := finished.copying.fresh copied
      obtain ⟨b', rfl, le_b', _⟩ := finished.copying.fresh copied'
      obtain ⟨rfl, rfl⟩ := Heap.eq_of_places_le_one (finished.places_le le unnoted) le_b le_b' held₁
        held₁'
      obtain rfl := finished.copying.injective copied copied'
      exact Option.some.inj (held.symm.trans held')

/-- What a container holds corresponds, place by place. -/
theorem mirrors {u w : Value} (reached : source.Reaches Payload.elements v u)
    (copied : s.1.get? u = some w) :
    Mirrors (Corresponds source s v c) (s.2.payload u) (s.2.payload w) := by
  rw [finished.payload_eq reached]
  have filled := finished.copying.filled copied List.not_mem_nil
  refine filled.imp_getElem? fun i item item' held held' stands => ?_
  have inside : source.Reaches Payload.elements v item := reached.edge (List.mem_of_getElem? held)
  cases stands with
  | container is copied' => exact .container inside copied'
  | extension is => exact .extension is (.element reached copied held held')
  | leaf notContainer notExtension =>
    refine .leaf ?_
    rw [Heap.IsLeaf, finished.payload_eq inside]
    exact Payload.isLeaf_of notContainer notExtension

theorem agrees {u w : Value} (related : Corresponds source s v c u w) :
    Agrees (Corresponds source s v c) s.2 s.2 u w := by
  cases related with
  | container reached copied => exact .node rfl rfl (.container (finished.mirrors reached copied))
  | extension is place =>
    obtain ⟨_, _, _, eq, _⟩ := finished.extension is place
    exact .node ((finished.payload_eq place.reached).trans is) eq (.extension _)
  | leaf is => exact .leaf is

/-! ### One to one -/

theorem functional (once : source.HoldsOnce v) {u w w' : Value}
    (related : Corresponds source s v c u w) (related' : Corresponds source s v c u w') : w = w' := by
  have agrees := finished.agrees related
  have agrees' := finished.agrees related'
  cases related with
  | container _ copied =>
    have container := finished.copying.container copied
    cases related' with
    | container _ copied' => exact Option.some.inj (copied.symm.trans copied')
    | extension is _ => rw [is] at container; cases container
    | leaf is => exact (agrees.eq_of_isLeaf (.inl is)).symm
  | extension is place =>
    cases related' with
    | container _ copied' =>
      have container := finished.copying.container copied'
      rw [is] at container
      cases container
    | extension _ place' => exact place.functional once is place'
    | leaf isLeaf => exact (agrees.eq_of_isLeaf (.inl isLeaf)).symm
  | leaf is => exact agrees'.eq_of_isLeaf (.inl is)

theorem injective {u u' w : Value} (related : Corresponds source s v c u w)
    (related' : Corresponds source s v c u' w) : u = u' := by
  have agrees := finished.agrees related
  have agrees' := finished.agrees related'
  cases related with
  | container _ copied =>
    cases related' with
    | container _ copied' => exact finished.copying.injective copied copied'
    | extension is place =>
      obtain ⟨_, _, _, _, unnoted⟩ := finished.extension is place
      exact absurd copied (unnoted u)
    | leaf is => exact agrees.eq_of_isLeaf (.inr is)
  | extension is place =>
    cases related' with
    | container _ copied' =>
      obtain ⟨_, _, _, _, unnoted⟩ := finished.extension is place
      exact absurd copied' (unnoted u')
    | extension is' place' => exact finished.samePlace_injective is is' place place'
    | leaf isLeaf => exact agrees.eq_of_isLeaf (.inr isLeaf)
  | leaf is => exact (agrees'.eq_of_isLeaf (.inr is)).symm

/-- A value and its copy are twins, in the heap that holds both. -/
theorem twins (once : source.HoldsOnce v) :
    Twins (Corresponds source s v c) source.size s.2 s.2 := by
  refine ⟨rfl, rfl, fun _ => rfl, finished.agrees, fun {u w u' w'} related related' => ⟨?_, ?_⟩,
    fun related => ?_, .leaf⟩
  · rintro rfl
    exact finished.functional once related related'
  · rintro rfl
    exact finished.injective related related'
  · cases related with
    | container _ copied =>
      obtain ⟨address, eq, le, _⟩ := finished.copying.fresh copied
      exact .inr ⟨address, eq, le⟩
    | extension is place =>
      obtain ⟨address, eq, le, _⟩ := finished.extension is place
      exact .inr ⟨address, eq, le⟩
    | leaf is => exact .inl is

/-- A value corresponds to its copy. -/
theorem corresponds : Corresponds source s v c v c := by
  cases finished.root with
  | container is copied => exact .container .root copied
  | extension is => exact .extension is .root
  | leaf notContainer notExtension =>
    refine .leaf ?_
    rw [Heap.IsLeaf, finished.payload_eq .root]
    exact Payload.isLeaf_of notContainer notExtension

/-! ### Alone -/

/-- What the copy leads to is a new cell, or a leaf. -/
theorem new {w : Value} (reached : s.2.Reaches Payload.elements c w) :
    s.2.IsLeaf w ∨ ∃ address, w = .cell address ∧ source.size ≤ address := by
  obtain ⟨u, from_v, stands⟩ :=
    finished.copying.reaches_source finished.root finished.named reached
  cases stands with
  | container _ copied =>
    obtain ⟨address, eq, le, _⟩ := finished.copying.fresh copied
    exact .inr ⟨address, eq, le⟩
  | extension _ fresh _ _ => exact .inr ⟨_, rfl, fresh⟩
  | leaf notContainer notExtension =>
    refine .inl ?_
    rw [Heap.IsLeaf, finished.payload_eq from_v]
    exact Payload.isLeaf_of notContainer notExtension

/-- The copy is its own twin, with no relation to any cell that can be written and was there before. -/
theorem alone : Twins (fun u w => u = w ∧ (s.2.Reaches Payload.elements c u ∨ s.2.IsLeaf u))
    source.size s.2 s.2 := by
  refine ⟨rfl, rfl, fun _ => rfl, ?_, fun {u w u' w'} related related' => ?_, ?_,
    fun is => ⟨rfl, .inr is⟩⟩
  · rintro u _ ⟨rfl, reached | is⟩
    · cases held : s.2.payload u with
      | array items =>
        refine .node held held (.container (.array (List.forall₂_same.mpr fun x mem => ⟨rfl, .inl ?_⟩)))
        exact reached.edge (by rw [held]; exact mem)
      | object fields =>
        refine .node held held
          (.container (.object (List.forall₂_same.mpr fun p mem => ⟨rfl, rfl, .inl ?_⟩)))
        exact reached.edge (by rw [held]; exact List.mem_map_of_mem mem)
      | extension e => exact .node held held (.extension e)
      | _ => exact .leaf (by rw [Heap.IsLeaf, held]; rfl)
    · exact .leaf is
  · rw [← related.1, ← related'.1]
  · rintro u _ ⟨rfl, reached | is⟩
    · exact finished.new reached
    · exact .inl is

end Finished

/-! ## Edits of a copy -/

/-- Edits of a deep copy change no cell that was there before. If each object with a payload of its own
is held in one place, the value and its copy answer any edits along paths alike, and hold the same
afterwards at every path; paths that lead to one cell in one of them do so in the other. -/
theorem deepClone_edits (m : Machine) (v : Value)
    (named : ∀ u, m.heap.Reaches Payload.elements v u → m.heap.names u = true) :
    ∃ c m₁, (Run.ofHeap (deepClone v)).run.run m = (.ok c, m₁) ∧
      ∀ steps : List Step, (∀ step ∈ steps, ∀ x ∈ step.edit.written?, m₁.heap.IsLeaf x) →
        ∃ replies mc, (serveAll c steps).run.run m₁ = (.ok replies, mc) ∧
          (∀ u, m.heap.holds u = true → mc.heap.cell u = m.heap.cell u) ∧
          (m.heap.HoldsOnce v → ∃ mv, (serveAll v steps).run.run m₁ = (.ok replies, mv) ∧
            (∀ path, (mc.heap.at? path c).map mc.heap.view =
              (mv.heap.at? path v).map mv.heap.view) ∧
            ∀ path path', mc.heap.at? path c = mc.heap.at? path' c ↔
              mv.heap.at? path v = mv.heap.at? path' v) := by
  obtain ⟨copied, finished⟩ := finished_deepClone m.config m.heap v named
  refine ⟨(HeapM.perform (deepClone v) m.config m.heap).1,
    { m with heap := (HeapM.perform (deepClone v) m.config m.heap).2 }, rfl, fun steps scalars => ?_⟩
  obtain ⟨replies, _, mc, _, served, _, frame⟩ := serveAll_twins (m := { m with heap := _ })
    ⟨rfl, .inl .root⟩ steps (fun step mem x is => ⟨rfl, .inr (scalars step mem x is)⟩)
    ⟨rfl, finished.alone⟩
  refine ⟨replies, mc, served, fun u holds => ?_, fun once => ?_⟩
  · cases u with
    | cell address =>
      have lt : address < m.heap.size := of_decide_eq_true holds
      exact (frame address lt).trans (finished.copying.frame lt)
    | _ => cases holds
  · have twins := finished.twins once
    have written : ∀ step ∈ steps, ∀ x ∈ step.edit.written?, Corresponds _ _ _ _ x x :=
      fun step mem x is => twins.leaf (scalars step mem x is)
    obtain ⟨replies', mv, mc', served_v, served_c, ⟨_, twins'⟩, _⟩ :=
      serveAll_twins finished.corresponds steps written (m := { m with heap := _ }) ⟨rfl, twins⟩
    obtain ⟨same, rfl⟩ := Prod.mk.inj (served.symm.trans served_c)
    obtain rfl := Except.ok.inj same
    exact ⟨mv, served_v, fun path => twins'.view_at? path finished.corresponds,
      fun path path' => twins'.at?_eq_iff path path' finished.corresponds⟩

/-- Buffers of one byte, an array that holds the first one twice, and a copy of the array, which holds
the others. -/
def buffers (byte byte' byte'' : UInt8) : Heap :=
  .ofCells #[.ofPayload (.extension (.buffer #[byte])), .ofPayload (.array #[.cell 0, .cell 0]),
    .ofPayload (.array #[.cell 3, .cell 4]), .ofPayload (.extension (.buffer #[byte'])),
    .ofPayload (.extension (.buffer #[byte'']))]

/-- A byte that is written through one place of an array shows at the other one, but not in a copy. -/
theorem deepClone_edits_shared :
    let m : Machine := { Machine.start ⟨"linux", "2024-01-01 00:00:00", 0, 0.5⟩ [] with
      heap := .ofCells ((buffers 0 0 0).cells.take 2) }
    let v := Value.cell 1
    let steps : List Step := [⟨[.position 0], .setIndex (.small 0) (.small 1)⟩]
    (∀ u, m.heap.Reaches Payload.elements v u → m.heap.names u = true) ∧
      ∃ c m₁ replies mv mc, (Run.ofHeap (deepClone v)).run.run m = (.ok c, m₁) ∧
        (∀ step ∈ steps, ∀ x ∈ step.edit.written?, m₁.heap.IsLeaf x) ∧
        (serveAll v steps).run.run m₁ = (.ok replies, mv) ∧
        (serveAll c steps).run.run m₁ = (.ok replies, mc) ∧
        (mv.heap.at? [.position 1] v).map mv.heap.view = some (.extension (.buffer #[1])) ∧
        (mc.heap.at? [.position 1] c).map mc.heap.view = some (.extension (.buffer #[0])) := by
  intro m v steps
  have position : (buffers 0 0 0).position? (.small 0) = some 0 := by decide +kernel
  have byte : Number.toByte ((buffers 0 0 0).toNumber (.small 1)) = 1 := by decide +kernel
  have served (root : Value) (address : Nat)
      (leads : (buffers 0 0 0).at? [.position 0] root = some (.cell address))
      (held : (buffers 0 0 0).payload (.cell address) = .extension (.buffer #[0])) :
      (Step.serve root ⟨[.position 0], .setIndex (.small 0) (.small 1)⟩).run.run
          { m with heap := buffers 0 0 0 } =
        (.ok (some (.small 1, .ok)),
          { m with heap := (buffers 0 0 0).write (.cell address) (.extension (.buffer #[1])) }) := by
    have written : HeapM.perform (Value.setIndex (.cell address) (.small 0) (.small 1)).run m.config
        (buffers 0 0 0) = _ := perform_setIndex_buffer held rfl position Nat.one_pos
    rw [byte] at written
    exact serve_ok leads written
  refine ⟨?_, .cell 2, { m with heap := buffers 0 0 0 }, [some (.small 1, .ok)],
    { m with heap := buffers 1 0 0 }, { m with heap := buffers 0 1 0 }, ?_, ?_, ?_, ?_, rfl, rfl⟩
  · have closed : m.heap.IsClosed := by
      unfold Heap.IsClosed
      decide
    exact fun _ => Heap.Reaches.names closed rfl
  · rfl
  · intro step mem x written
    cases List.mem_singleton.mp mem
    cases written
    rfl
  · exact Run.bind_ok (served (.cell 1) 0 rfl rfl) _
  · exact Run.bind_ok (served (.cell 2) 3 rfl rfl) _

/-- An array that holds a buffer, an object twice and itself; the object holds a file and the array. -/
def album : Heap :=
  .ofCells #[.ofPayload (.array #[.cell 1, .cell 2, .cell 2, .cell 0]),
    .ofPayload (.extension (.buffer #[7, 8])),
    .ofPayload (.object (.ofList 8 [("file", .cell 3), ("back", .cell 0)])),
    .ofPayload (.extension (.fileHandle ⟨"a.txt", "r", 0, true⟩))]

/-- Edits of every kind, the last one through a field that another one removed. -/
def albumSteps : List Step :=
  [⟨[.position 0], .setIndex (.small 1) (.small 5)⟩,
    ⟨[.position 1, .field "file"], .closeFile⟩,
    ⟨[.position 3, .position 2], .setField "size" (.bool true)⟩,
    ⟨[], .setIndex (.small 6) .null⟩,
    ⟨[.position 1], .deleteField "back"⟩,
    ⟨[.position 2, .field "back"], .setIndex (.small 0) .null⟩]

theorem deepClone_edits_album :
    let m : Machine := { Machine.start ⟨"linux", "2024-01-01 00:00:00", 0, 0.5⟩ [] with heap := album }
    let v := Value.cell 0
    (∀ u, m.heap.Reaches Payload.elements v u → m.heap.names u = true) ∧ m.heap.HoldsOnce v ∧
      ∃ c m₁, (Run.ofHeap (deepClone v)).run.run m = (.ok c, m₁) ∧
        (∀ step ∈ albumSteps, ∀ x ∈ step.edit.written?, m₁.heap.IsLeaf x) ∧
        ∃ replies mc, (serveAll c albumSteps).run.run m₁ = (.ok replies, mc) ∧
          (∀ u, m.heap.holds u = true → mc.heap.cell u = m.heap.cell u) ∧
          ∃ mv, (serveAll v albumSteps).run.run m₁ = (.ok replies, mv) ∧
            (∀ path, (mc.heap.at? path c).map mc.heap.view =
              (mv.heap.at? path v).map mv.heap.view) ∧
            ∀ path path', mc.heap.at? path c = mc.heap.at? path' c ↔
              mv.heap.at? path v = mv.heap.at? path' v := by
  intro m v
  have graph : ∀ u, album.Reaches Payload.elements v u → u ∈ [.cell 0, .cell 1, .cell 2, .cell 3] :=
    fun u reached => reached.mem_of_closed (by decide) (by decide)
  have named : ∀ u, album.Reaches Payload.elements v u → album.names u = true := by
    intro u reached
    have all : ∀ u ∈ [Value.cell 0, .cell 1, .cell 2, .cell 3], album.names u = true := by decide
    exact all u (graph u reached)
  have once : album.HoldsOnce v := by
    intro u u' w i i' e reached reached' is held held'
    have places : ∀ u ∈ [Value.cell 0, .cell 1, .cell 2, .cell 3],
        ∀ u' ∈ [Value.cell 0, .cell 1, .cell 2, .cell 3],
        ∀ w ∈ [Value.cell 0, .cell 1, .cell 2, .cell 3], (album.payload w).extension?.isSome = true →
        ∀ i ∈ List.range 4, ∀ i' ∈ List.range 4,
        (album.payload u).elements[i]? = some w → (album.payload u').elements[i']? = some w →
          u = u' ∧ i = i' := by decide
    have isExtension : (album.payload w).extension?.isSome = true := by rw [is]; rfl
    have few : ∀ u ∈ [Value.cell 0, .cell 1, .cell 2, .cell 3],
        (album.payload u).elements.length ≤ 4 := by decide
    have inside {u w : Value} {i : Nat} (mem : u ∈ [Value.cell 0, .cell 1, .cell 2, .cell 3])
        (held : (album.payload u).elements[i]? = some w) : i ∈ List.range 4 :=
      List.mem_range.mpr (Nat.lt_of_lt_of_le (List.getElem?_eq_some_iff.mp held).1 (few u mem))
    exact places u (graph u reached) u' (graph u' reached') w
      (graph w (reached.edge (List.mem_of_getElem? held))) isExtension
      i (inside (graph u reached) held) i' (inside (graph u' reached') held') held held'
  obtain ⟨c, m₁, cloned, edits⟩ := deepClone_edits m v named
  have scalars : ∀ step ∈ albumSteps, ∀ x ∈ step.edit.written?, m₁.heap.IsLeaf x := by
    intro step mem x written
    have constants : ∀ step ∈ albumSteps, step.edit.written? ∈
        [none, some (.small 5), some (.bool true), some .null] := by decide
    have is := constants step mem
    rw [written] at is
    simp only [List.mem_cons, reduceCtorEq, Option.some.injEq, List.not_mem_nil, or_false,
      false_or] at is
    rcases is with rfl | rfl | rfl <;> rfl
  obtain ⟨replies, mc, served, kept, alike⟩ := edits albumSteps scalars
  exact ⟨named, once, c, m₁, cloned, scalars, replies, mc, served, kept, alike once⟩

end ValueMachine
