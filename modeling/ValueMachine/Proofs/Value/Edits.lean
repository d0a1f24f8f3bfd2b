import ValueMachine.Builtin.Files
import ValueMachine.Proofs.Heap.Twins
import ValueMachine.Proofs.Machine.Running
import ValueMachine.Value.Indexing

/-!
# Edits on twins

An edit writes to the cell that it is made to and reads nothing else but its key and its value. On
twins, edits of related cells have the same outcome and leave twins.

Results:
* `Edit.parallel`: one edit;
* `serve_twins`, `serveAll_twins`: edits of what paths lead to, one and any number of them.
-/

namespace ValueMachine

/-- What is done to a container, a buffer or a file handle. -/
inductive Edit where
  | setIndex (key v : Value)
  | setField (name : String) (v : Value)
  | deleteField (name : String)
  | closeFile

namespace Edit

def apply (target : Value) : Edit → Attempt Value
  | setIndex key v => Value.setIndex target key v
  | setField name v => Value.setField target name v
  | deleteField name => Value.deleteField target name
  | closeFile => Files.closeFile target

/-- The value that is written. -/
def written? : Edit → Option Value
  | setIndex _ v => some v
  | setField _ v => some v
  | _ => none

end Edit

variable {R : Value → Value → Prop} {bound : Nat} {h h' : Heap} {config : Config}

/-! ## Keys and scalars -/

namespace Twins

theorem follow (twins : Twins R bound h h') (fuel : Nat) :
    ∀ v, h'.follow fuel v = h.follow fuel v := by
  induction fuel with
  | zero => exact fun v => rfl
  | succ fuel ih =>
    intro v
    rw [Heap.follow, Heap.follow]
    rcases twins.payload_eq_or v with same | ⟨node, node'⟩
    · simp only [same, ih]
    · rcases Payload.of_leaf?_eq_none node with ⟨_, eq⟩ | ⟨_, eq⟩ | ⟨_, eq⟩ <;>
        rcases Payload.of_leaf?_eq_none node' with ⟨_, eq'⟩ | ⟨_, eq'⟩ | ⟨_, eq'⟩ <;>
        rw [eq, eq']

theorem content (twins : Twins R bound h h') (v : Value) : h'.content v = h.content v := by
  rw [Heap.content, Heap.content, twins.size, twins.follow]

/-- Containers and objects with a payload of their own all count as zero. -/
theorem toNumber (twins : Twins R bound h h') (v : Value) : h'.toNumber v = h.toNumber v := by
  rw [Heap.toNumber, Heap.toNumber, Heap.contentPayload, Heap.contentPayload, twins.content,
    twins.outside]
  rcases twins.payload_eq_or (h.content v) with same | ⟨node, node'⟩
  · rw [same]
  · rcases Payload.of_leaf?_eq_none node with ⟨_, eq⟩ | ⟨_, eq⟩ | ⟨_, eq⟩ <;>
      rcases Payload.of_leaf?_eq_none node' with ⟨_, eq'⟩ | ⟨_, eq'⟩ | ⟨_, eq'⟩ <;>
      rw [eq, eq']

theorem position? (twins : Twins R bound h h') (key : Value) : h'.position? key = h.position? key := by
  rw [Heap.position?, Heap.position?, twins.toNumber]

theorem text? (twins : Twins R bound h h') (key : Value) :
    (h'.payload key).text? = (h.payload key).text? :=
  twins.read none (fun p => by cases p <;> rfl) key

theorem isUndefined (twins : Twins R bound h h') (v : Value) :
    (h'.payload v).isUndefined = (h.payload v).isUndefined :=
  twins.read false (fun p => by cases p <;> rfl) v

end Twins

/-! ## Two computations at once -/

/-- Two computations, each on its heap, end with the same result or the same failure and leave twins.
The second one leaves the cells below the bound. -/
structure Parallel (R : Value → Value → Prop) (bound : Nat) (config : Config) (h h' : Heap)
    (x x' : Attempt Value) : Prop where
  outcome : (HeapM.perform x'.run config h').1 = (HeapM.perform x.run config h).1
  twins : Twins R bound (HeapM.perform x.run config h).2 (HeapM.perform x'.run config h').2
  frame : ∀ address < bound,
    (HeapM.perform x'.run config h').2.cell (.cell address) = h'.cell (.cell address)

namespace Parallel

theorem bind {α α' : Type} {x : Attempt α} {x' : Attempt α'} {a : α} {a' : α'} {f : α → Attempt Value}
    {f' : α' → Attempt Value} (ok : HeapM.perform x.run config h = (.ok a, h))
    (ok' : HeapM.perform x'.run config h' = (.ok a', h'))
    (next : Parallel R bound config h h' (f a) (f' a')) :
    Parallel R bound config h h' (x >>= f) (x' >>= f') := by
  constructor
  · rw [Attempt.bind_ok ok, Attempt.bind_ok ok', next.outcome]
  · rw [Attempt.bind_ok ok, Attempt.bind_ok ok']
    exact next.twins
  · rw [Attempt.bind_ok ok']
    exact next.frame

theorem answer (twins : Twins R bound h h') (v : Value) :
    Parallel R bound config h h' (return v) (return v) := ⟨rfl, twins, fun _ _ => rfl⟩

theorem refuse (twins : Twins R bound h h') (fault : Fault) (fallback : Value) :
    Parallel R bound config h h' (fail fault fallback) (fail fault fallback) :=
  ⟨rfl, twins, fun _ _ => rfl⟩

theorem write (twins : Twins R bound h h') {u w : Value} (related : R u w) {p p' q q' : Payload}
    (eq : h.payload u = p) (eq' : h'.payload w = p') (before : Resembles R p p')
    (after : Resembles R q q') (v : Value) : Parallel R bound config h h'
      (do writePayload u q; return v) (do writePayload w q'; return v) := by
  obtain ⟨twins', frame⟩ := twins.write related eq eq' before after
  exact ⟨rfl, twins', frame⟩

end Parallel

/-! ## One edit -/

theorem rel_set {α : Type} {S : α → α → Prop} {l l' : List α} (related : List.Forall₂ S l l') {a a' : α}
    (new : S a a') (i : Nat) : List.Forall₂ S (l.set i a) (l'.set i a') := by
  induction related generalizing i with
  | nil => exact .nil
  | cons first others ih =>
    cases i with
    | zero => exact .cons new others
    | succ i => exact .cons first (ih i)

theorem rel_writeAt {items items' : Array Value} (elements : List.Forall₂ R items.toList items'.toList)
    (gap : R .undefined .undefined) {v : Value} (written : R v v) (position : Nat) :
    List.Forall₂ R (Value.writeAt items position v).toList (Value.writeAt items' position v).toList := by
  have size : items.size = items'.size := elements.length_eq
  rw [Value.writeAt, Value.writeAt, ← size]
  split
  · rw [Array.toList_setIfInBounds, Array.toList_setIfInBounds]
    exact rel_set elements written position
  · rw [Array.toList_push, Array.toList_push, Array.toList_append, Array.toList_append,
      Array.toList_replicate]
    have filled : ∀ x ∈ List.replicate (position - items.size) Value.undefined, R x x := by
      intro x mem
      rw [List.eq_of_mem_replicate mem]
      exact gap
    exact List.rel_append (List.rel_append elements (List.forall₂_same.mpr filled))
      (.cons written .nil)

theorem rel_put {l l' : List (String × Value)}
    (related : List.Forall₂ (fun p p' => p.1 = p'.1 ∧ R p.2 p'.2) l l') (name : String) {v : Value}
    (written : R v v) : List.Forall₂ (fun p p' => p.1 = p'.1 ∧ R p.2 p'.2) (Listing.put l name v)
      (Listing.put l' name v) := by
  rw [Listing.put, Listing.put, ← map_fst_of_forall₂ related]
  split
  · rw [List.forall₂_map_left_iff, List.forall₂_map_right_iff]
    refine related.imp fun p p' first => ?_
    rw [← first.1]
    split
    · exact ⟨rfl, written⟩
    · exact first
  · exact List.rel_append related (.cons ⟨rfl, written⟩ .nil)

theorem rel_remove {l l' : List (String × Value)}
    (related : List.Forall₂ (fun p p' => p.1 = p'.1 ∧ R p.2 p'.2) l l') (name : String) :
    List.Forall₂ (fun p p' => p.1 = p'.1 ∧ R p.2 p'.2) (Listing.remove l name)
      (Listing.remove l' name) := by
  refine List.rel_filter ?_ related
  intro p p' first
  show decide (p.1 ≠ name) = true ↔ decide (p'.1 ≠ name) = true
  rw [first.1]

section Edits

variable (twins : Twins R bound h h') {u w : Value} (related : R u w)

include twins related

theorem parallel_setElement {items items' : Array Value} (eq : h.payload u = .array items)
    (eq' : h'.payload w = .array items') (elements : List.Forall₂ R items.toList items'.toList)
    (key : Value) {v : Value} (written : R v v) : Parallel R bound config h h'
      (Value.setElement u items key v) (Value.setElement w items' key v) := by
  have size : items.size = items'.size := elements.length_eq
  have before : Resembles R (.array items) (.array items') := .container (.array elements)
  have gap : R .undefined .undefined := twins.leaf rfl
  unfold Value.setElement
  refine .bind rfl rfl ?_
  dsimp only
  rw [twins.toNumber, twins.position?, ← size]
  split
  · exact .answer twins v
  split
  · exact .refuse twins _ _
  split
  · exact .write twins related eq eq' before (.container (.array (rel_writeAt elements gap written _))) v
  · exact .refuse twins _ _

theorem parallel_setByte {e : Extension} (eq : h.payload u = .extension e)
    (eq' : h'.payload w = .extension e) (key v : Value) : Parallel R bound config h h'
      (Value.setByte u e key v) (Value.setByte w e key v) := by
  unfold Value.setByte
  refine .bind rfl rfl ?_
  dsimp only
  rw [twins.toNumber, twins.position?]
  split
  · exact .refuse twins _ _
  split
  · exact .refuse twins _ _
  split
  · exact .write twins related eq eq' (.extension e) (.extension _) v
  · exact .refuse twins _ _

theorem parallel_setField {fields fields' : Table Value} (eq : h.payload u = .object fields)
    (eq' : h'.payload w = .object fields')
    (entries : List.Forall₂ (fun p p' => p.1 = p'.1 ∧ R p.2 p'.2) fields.toList fields'.toList)
    (name : String) {v : Value} (written : R v v) : Parallel R bound config h h'
      (Value.setField u name v) (Value.setField w name v) := by
  have before : Resembles R (.object fields) (.object fields') := .container (.object entries)
  unfold Value.setField
  refine .bind (perform_require Payload.object? config (congrArg Payload.object? eq) _ _ _)
    (perform_require Payload.object? config (congrArg Payload.object? eq') _ _ _) ?_
  refine .bind rfl rfl (.bind rfl rfl ?_)
  dsimp only
  rw [twins.isUndefined]
  refine .write twins related eq eq' before (.container (.object ?_)) v
  split
  · rw [Table.toList_erase, Table.toList_erase]
    exact rel_remove entries name
  · rw [Table.toList_insert, Table.toList_insert]
    exact rel_put entries name written

theorem parallel_deleteField {fields fields' : Table Value} (eq : h.payload u = .object fields)
    (eq' : h'.payload w = .object fields')
    (entries : List.Forall₂ (fun p p' => p.1 = p'.1 ∧ R p.2 p'.2) fields.toList fields'.toList)
    (name : String) : Parallel R bound config h h'
      (Value.deleteField u name) (Value.deleteField w name) := by
  have before : Resembles R (.object fields) (.object fields') := .container (.object entries)
  have found : (fields'.erase name).1.isSome = (fields.erase name).1.isSome := by
    rw [Table.fst_erase, Table.fst_erase]
    have found := rel_lookup entries name
    generalize fields.toList.lookup name = a, fields'.toList.lookup name = a' at found
    cases found <;> rfl
  unfold Value.deleteField
  refine .bind (perform_require Payload.object? config (congrArg Payload.object? eq) _ _ _)
    (perform_require Payload.object? config (congrArg Payload.object? eq') _ _ _) ?_
  dsimp only
  rw [found]
  refine .write twins related eq eq' before (.container (.object ?_)) _
  rw [Table.toList_erase, Table.toList_erase]
  exact rel_remove entries name

end Edits

/-- What is no plain object has no fields to write. -/
theorem parallel_fieldsArg (twins : Twins R bound h h') {u w : Value}
    (other : (h.payload u).object? = none) (other' : (h'.payload w).object? = none)
    (operation : String) (fallback : Value) (f f' : Table Value → Attempt Value) :
    Parallel R bound config h h' (Value.fieldsArg u operation fallback >>= f)
      (Value.fieldsArg w operation fallback >>= f') := by
  have refused := Attempt.bind_error
    (perform_require_of_none config other operation "Not an object" fallback) f
  have refused' := Attempt.bind_error
    (perform_require_of_none config other' operation "Not an object" fallback) f'
  unfold Value.fieldsArg
  constructor
  · rw [refused, refused']
  · rw [refused, refused']
    exact twins
  · rw [refused']
    exact fun _ _ => rfl

/-- Related values are both plain objects or both something else. -/
theorem Agrees.object? {u w : Value} (agrees : Agrees R h h' u w) (twins : Twins R bound h h') :
    (h.payload u).object? = none ∧ (h'.payload w).object? = none ∨
      ∃ fields fields', h.payload u = .object fields ∧ h'.payload w = .object fields' ∧
        List.Forall₂ (fun p p' => p.1 = p'.1 ∧ R p.2 p'.2) fields.toList fields'.toList := by
  cases agrees with
  | node eq eq' resembles =>
    cases resembles with
    | container mirrors =>
      cases mirrors with
      | array elements => exact .inl ⟨congrArg Payload.object? eq, congrArg Payload.object? eq'⟩
      | object entries => exact .inr ⟨_, _, eq, eq', entries⟩
    | extension e => exact .inl ⟨congrArg Payload.object? eq, congrArg Payload.object? eq'⟩
  | leaf is =>
    have no := Payload.object?_of_leaf is
    exact .inl ⟨no, twins.payload_eq is ▸ no⟩

/-- Edits of related cells are carried out or refused alike. -/
theorem Edit.parallel (twins : Twins R bound h h') {u w : Value} (related : R u w) (edit : Edit)
    (written : ∀ v ∈ edit.written?, R v v) :
    Parallel R bound config h h' (edit.apply u) (edit.apply w) := by
  have agrees := twins.agrees related
  cases edit with
  | setIndex key v =>
    replace written := written v rfl
    show Parallel R bound config h h' (Value.setIndex u key v) (Value.setIndex w key v)
    unfold Value.setIndex
    refine .bind rfl rfl ?_
    cases agrees with
    | node eq eq' resembles =>
      rw [eq, eq']
      cases resembles with
      | container mirrors =>
        cases mirrors with
        | array elements => exact parallel_setElement twins related eq eq' elements key written
        | object entries =>
          dsimp only
          rw [twins.text?]
          split
          · exact parallel_setField twins related eq eq' entries _ written
          · exact .refuse twins _ _
      | extension e =>
        dsimp only
        split
        · next x isNumber =>
          rw [(twins.payload_eq_iff rfl).mpr isNumber]
          exact parallel_setByte twins related eq eq' key v
        · next notNumber =>
          split
          · next x isNumber => exact absurd ((twins.payload_eq_iff rfl).mp isNumber) (notNumber x)
          · exact .refuse twins _ _
    | leaf is =>
      rw [twins.payload_eq is]
      rw [Heap.IsLeaf] at is
      generalize h.payload u = p at is
      cases p <;> first | exact .refuse twins _ _ | cases is
  | setField name v =>
    replace written := written v rfl
    show Parallel R bound config h h' (Value.setField u name v) (Value.setField w name v)
    rcases agrees.object? twins with ⟨none, none'⟩ | ⟨fields, fields', eq, eq', entries⟩
    · exact parallel_fieldsArg twins none none' _ _ _ _
    · exact parallel_setField twins related eq eq' entries name written
  | deleteField name =>
    rcases agrees.object? twins with ⟨none, none'⟩ | ⟨fields, fields', eq, eq', entries⟩
    · exact parallel_fieldsArg twins none none' _ _ _ _
    · exact parallel_deleteField twins related eq eq' entries name
  | closeFile =>
    show Parallel R bound config h h' (Files.closeFile u) (Files.closeFile w)
    unfold Files.closeFile
    refine .bind rfl rfl ?_
    dsimp only
    cases agrees with
    | node eq eq' resembles =>
      rw [eq, eq']
      cases resembles with
      | container mirrors => cases mirrors <;> exact .answer twins _
      | extension e =>
        cases e with
        | fileHandle file => exact .write twins related eq eq' (.extension _) (.extension _) _
        | _ => exact .answer twins _
    | leaf is =>
      rw [twins.payload_eq is]
      rw [Heap.IsLeaf] at is
      generalize h.payload u = p at is
      cases p <;> first | exact .answer twins _ | cases is

/-- Writing a byte of a buffer. -/
theorem perform_setIndex_buffer {target key v : Value} {bytes : Array UInt8} {x : Float} {i : Nat}
    (held : h.payload target = .extension (.buffer bytes)) (number : h.payload key = .number x)
    (position : h.position? key = some i) (lt : i < bytes.size) :
    HeapM.perform (Value.setIndex target key v).run config h = (.ok v, h.write target
      (.extension (.buffer (bytes.setIfInBounds i (Number.toByte (h.toNumber v)))))) := by
  have read : HeapM.perform (get : Attempt Heap).run config h = (.ok h, h) := rfl
  rw [Value.setIndex, Attempt.bind_ok read, held]
  dsimp only
  rw [number]
  dsimp only
  rw [Value.setByte, Attempt.bind_ok read]
  dsimp only [Extension.bytes?]
  rw [position]
  dsimp only
  rw [if_pos lt]
  rfl

/-! ## Edits along paths -/

/-- An edit of what a path leads to. -/
structure Step where
  path : List Selector
  edit : Edit

/-- Makes an edit to what the path leads to from the root, and tells the result and the status. A path
that leads nowhere is passed over. -/
def Step.serve (root : Value) (step : Step) : Run (Option (Value × Status)) := do
  match (← get).heap.at? step.path root with
  | none => return none
  | some target =>
    let result ← settle (step.edit.apply target)
    return some (result, (← get).status)

def serveAll (root : Value) (steps : List Step) : Run (List (Option (Value × Status))) :=
  steps.mapM (·.serve root)

/-- An edit that succeeds. -/
theorem serve_ok {m : Machine} {root target result : Value} {step : Step} {after : Heap}
    (leads : m.heap.at? step.path root = some target)
    (ok : HeapM.perform (step.edit.apply target).run m.config m.heap = (.ok result, after)) :
    (step.serve root).run.run m =
      (.ok (some (result, .ok)), { m with heap := after, status := .ok }) := by
  have read : (get : Run Machine).run.run m = (.ok m, m) := rfl
  unfold Step.serve
  rw [Run.bind_ok read, leads]
  exact Run.bind_ok (settle_ok ok) _

/-- Two machines with one configuration whose heaps are twins. -/
structure TwinMachines (R : Value → Value → Prop) (bound : Nat) (m m' : Machine) : Prop where
  config : m'.config = m.config
  heap : Twins R bound m.heap m'.heap

theorem settle_parallel {m m' : Machine} {x x' : Attempt Value}
    (config : m'.config = m.config) (parallel : Parallel R bound m.config m.heap m'.heap x x') :
    ∃ result m₁ m₁', (settle x).run.run m = (.ok result, m₁) ∧
      (settle x').run.run m' = (.ok result, m₁') ∧
      m₁'.status = m₁.status ∧ TwinMachines R bound m₁ m₁' ∧
      ∀ address < bound, m₁'.heap.cell (.cell address) = m'.heap.cell (.cell address) := by
  obtain ⟨outcome, twins, frame⟩ := parallel
  rw [settle_eq, settle_eq, config]
  generalize HeapM.perform x.run m.config m.heap = end₁ at outcome twins
  generalize HeapM.perform x'.run m.config m'.heap = end₂ at outcome twins frame
  obtain ⟨result, heap⟩ := end₁
  obtain ⟨result', heap'⟩ := end₂
  obtain rfl : result' = result := outcome
  cases result' with
  | ok v => exact ⟨v, _, _, rfl, rfl, rfl, ⟨rfl, twins⟩, frame⟩
  | error failure => exact ⟨failure.fallback, _, _, rfl, rfl, rfl, ⟨rfl, twins⟩, frame⟩

/-- One step on two machines with twin heaps. -/
theorem serve_twins {m m' : Machine} (twins : TwinMachines R bound m m') {v w : Value} (related : R v w)
    (step : Step) (written : ∀ x ∈ step.edit.written?, R x x) :
    ∃ reply m₁ m₁', (step.serve v).run.run m = (.ok reply, m₁) ∧
      (step.serve w).run.run m' = (.ok reply, m₁') ∧ TwinMachines R bound m₁ m₁' ∧
      ∀ address < bound, m₁'.heap.cell (.cell address) = m'.heap.cell (.cell address) := by
  have read (n : Machine) : (get : Run Machine).run.run n = (.ok n, n) := rfl
  have targets := twins.heap.at? step.path related
  unfold Step.serve
  rw [Run.bind_ok (read m), Run.bind_ok (read m')]
  generalize m.heap.at? step.path v = target, m'.heap.at? step.path w = target' at targets
  cases targets with
  | none => exact ⟨none, m, m', rfl, rfl, twins, fun _ _ => rfl⟩
  | @some u u' related' =>
    have parallel : Parallel R bound m.config m.heap m'.heap _ _ :=
      step.edit.parallel twins.heap related' written
    obtain ⟨result, m₁, m₁', settled, settled', status, twins₁, frame⟩ :=
      settle_parallel twins.config parallel
    refine ⟨some (result, m₁.status), m₁, m₁', ?_, ?_, twins₁, frame⟩
    · exact Run.bind_ok settled _
    · rw [← status]
      exact Run.bind_ok settled' _

/-- Any number of steps on two machines with twin heaps. -/
theorem serveAll_twins {v w : Value} (related : R v w) (steps : List Step)
    (written : ∀ step ∈ steps, ∀ x ∈ step.edit.written?, R x x) :
    ∀ {m m' : Machine}, TwinMachines R bound m m' →
      ∃ replies m₁ m₁', (serveAll v steps).run.run m = (.ok replies, m₁) ∧
        (serveAll w steps).run.run m' = (.ok replies, m₁') ∧ TwinMachines R bound m₁ m₁' ∧
        ∀ address < bound, m₁'.heap.cell (.cell address) = m'.heap.cell (.cell address) := by
  induction steps with
  | nil => exact fun {m m'} twins => ⟨[], m, m', rfl, rfl, twins, fun _ _ => rfl⟩
  | cons step steps ih =>
    intro m m' twins
    obtain ⟨first, others⟩ := List.forall_mem_cons.mp written
    obtain ⟨reply, m₁, m₁', served, served', twins₁, frame₁⟩ := serve_twins twins related step first
    obtain ⟨replies, m₂, m₂', all, all', twins₂, frame₂⟩ := ih others twins₁
    refine ⟨reply :: replies, m₂, m₂', ?_, ?_, twins₂, fun address lt => ?_⟩
    · rw [serveAll, List.mapM_cons, Run.bind_ok served]
      exact Run.bind_ok all _
    · rw [serveAll, List.mapM_cons, Run.bind_ok served']
      exact Run.bind_ok all' _
    · exact (frame₂ address lt).trans (frame₁ address lt)

end ValueMachine
