import ValueMachine.Proofs.Value.NewContents

/-!
# Operations that write

Six operations write to a cell: to the container, buffer, box, function or file handle that they are
applied to. They write there alone, and where they refuse it they write nothing.

Results:
* `Attempt.Writes` and the rules for it: what is written on the heap;
* `Mutation.writes`: the six operations write to their target at most;
* `cells_kept`: what is left as it is, by those that write and by those that do not.
-/

namespace ValueMachine

namespace Heap

variable {h : Heap} {v : Value}

/-- Replacing a payload by itself changes nothing. -/
theorem write_payload (h : Heap) (v : Value) : h.write v (h.payload v) = h := by
  cases v with
  | cell address =>
    have same : h.cells.modify address (fun c => { c with payload := h.payload (.cell address) }) =
        h.cells := by
      refine Array.ext (by simp) fun i _ lt => ?_
      rw [Array.getElem_modify]
      split
      · next eq =>
        subst eq
        simp [payload, cell, Array.getD_eq_getD_getElem?, lt]
      · rfl
    exact congrArg (fun cells => { h with cells }) same
  | _ => rfl

/-- No other cell is written to, and none is added. -/
structure WritesOnly (h h' : Heap) (target : Value) : Prop where
  size_eq : h'.size = h.size
  frame {v : Value} : v ≠ target → h'.cell v = h.cell v
  dropped_eq : h'.dropped = h.dropped
  outside_eq : h'.outside = h.outside

theorem WritesOnly.refl (h : Heap) (target : Value) : h.WritesOnly h target :=
  ⟨rfl, fun _ => rfl, rfl, rfl⟩

theorem writesOnly_write (h : Heap) (target : Value) (p : Payload) :
    h.WritesOnly (h.write target p) target :=
  ⟨h.size_update target _, h.cell_write_of_ne p, h.dropped_update target _,
    h.outside_update target _⟩

end Heap

/-! ## On the heap -/

/-- The computation writes to the given cell at most, and writes nothing when it fails. -/
def Attempt.Writes (x : Attempt Value) (target : Value) (config : Config) (h : Heap) : Prop :=
  match HeapM.perform x.run config h with
  | (.ok _, h') => h.WritesOnly h' target
  | (.error failure, h') => failure.status.isOk = false ∧ h' = h

namespace Attempt

variable {config : Config} {h : Heap} {target : Value}

theorem writes_return (v : Value) : Writes (return v) target config h := .refl h target

theorem writes_fail (fault : Fault) (fallback : Value) :
    Writes (fail fault fallback) target config h := ⟨by cases fault <;> rfl, rfl⟩

theorem writes_writePayload (p : Payload) (v : Value) :
    Writes (do writePayload target p; return v) target config h := h.writesOnly_write target p

theorem writes_get {f : Heap → Attempt Value} :
    Writes (get >>= f) target config h ↔ Writes (f h) target config h := Iff.rfl

theorem writes_read {f : Config → Attempt Value} :
    Writes (read >>= f) target config h ↔ Writes (f config) target config h := Iff.rfl

theorem writes_payloadOf {v : Value} {f : Payload → Attempt Value} :
    Writes (liftM (payloadOf v) >>= f) target config h ↔ Writes (f (h.payload v)) target config h :=
  Iff.rfl

theorem writes_require {α : Type} {form : Payload → Option α} {v : Value}
    {operation requirement : String} {fallback : Value} {f : α → Attempt Value}
    (next : ∀ content, form (h.payload v) = some content → Writes (f content) target config h) :
    Writes (require form v operation requirement (return fallback) >>= f) target config h := by
  unfold Writes
  cases is : form (h.payload v) with
  | some content =>
    rw [bind_ok (perform_require form config is operation requirement _)]
    exact next content is
  | none =>
    rw [bind_error (perform_require_of_none config is operation requirement fallback)]
    exact ⟨rfl, rfl⟩

end Attempt

namespace HeapM

variable {config : Config} {h : Heap} {target : Value}

/-- The computation answers whether it was accepted. If so it writes to the given cell at most, and
otherwise it writes nothing. -/
def Accepts (x : HeapM Bool) (target : Value) (config : Config) (h : Heap) : Prop :=
  match x.perform config h with
  | (true, h') => h.WritesOnly h' target
  | (false, h') => h' = h

theorem accepts_false : Accepts (return false) target config h := rfl

theorem accepts_writePayload (p : Payload) :
    Accepts (do writePayload target p; return true) target config h := h.writesOnly_write target p

theorem accepts_payloadOf {v : Value} {f : Payload → HeapM Bool} :
    Accepts (payloadOf v >>= f) target config h ↔ Accepts (f (h.payload v)) target config h :=
  Iff.rfl

end HeapM

/-! ## The operations -/

namespace Value

variable {config : Config} {h : Heap}

theorem writes_setField (object : Value) (key : String) (v : Value) :
    Attempt.Writes (setField object key v) object config h := by
  refine Attempt.writes_require fun _ _ => ?_
  rw [Attempt.writes_read, Attempt.writes_payloadOf]
  exact Attempt.writes_writePayload _ v

theorem writes_deleteField (object : Value) (key : String) :
    Attempt.Writes (deleteField object key) object config h :=
  Attempt.writes_require fun _ _ => Attempt.writes_writePayload _ _

theorem writes_setElement (container : Value) (items : Array Value) (key v : Value) :
    Attempt.Writes (setElement container items key v) container config h := by
  rw [setElement, Attempt.writes_get]
  dsimp only
  split
  · exact Attempt.writes_return v
  · split
    · exact Attempt.writes_fail _ _
    · split
      · exact Attempt.writes_writePayload _ v
      · exact Attempt.writes_fail _ _

theorem writes_setByte (container : Value) (e : Extension) (key v : Value) :
    Attempt.Writes (setByte container e key v) container config h := by
  rw [setByte, Attempt.writes_get]
  split
  · exact Attempt.writes_fail _ _
  · split
    · exact Attempt.writes_fail _ _
    · split
      · exact Attempt.writes_writePayload _ v
      · exact Attempt.writes_fail _ _

theorem writes_setIndex (container key v : Value) :
    Attempt.Writes (setIndex container key v) container config h := by
  rw [setIndex, Attempt.writes_get]
  split
  · split
    · exact writes_setField container _ v
    · exact Attempt.writes_fail _ _
  · exact writes_setElement container _ key v
  · split
    · exact writes_setByte container _ key v
    · exact Attempt.writes_fail _ _
  · exact Attempt.writes_fail _ _
  · exact Attempt.writes_fail _ _

theorem accepts_writeBox (box content : Value) :
    HeapM.Accepts (writeBox box content) box config h := by
  rw [writeBox, HeapM.accepts_payloadOf]
  split
  · exact HeapM.accepts_writePayload _
  · exact HeapM.accepts_false

theorem accepts_bindSelfCapture (function : Value) (slot : Nat) :
    HeapM.Accepts (bindSelfCapture function slot) function config h := by
  rw [bindSelfCapture, HeapM.accepts_payloadOf]
  split
  · split
    · exact HeapM.accepts_writePayload _
    · exact HeapM.accepts_false
  · exact HeapM.accepts_false

end Value

theorem Files.writes_closeFile {config : Config} {h : Heap} (handle : Value) :
    Attempt.Writes (closeFile handle) handle config h := by
  rw [closeFile, Attempt.writes_payloadOf]
  split
  · exact Attempt.writes_writePayload _ _
  · exact Attempt.writes_return _

/-! ## On the machine -/

/-- The computation is not halted and writes to the given cell at most. It writes nothing if it ends
as a refusal does. -/
def Run.Writes (x : Run Value) (target : Value) (refused : Value → Machine → Prop) (m : Machine) :
    Prop :=
  x.Ends m
    (fun v m' => m.heap.WritesOnly m'.heap target ∧ (refused v m' → m'.heap = m.heap))
    fun _ _ => False

theorem Run.writes_settle {x : Attempt Value} {target : Value} {refused : Value → Machine → Prop}
    {m : Machine} (writes : Attempt.Writes x target m.config m.heap)
    (refuses : ∀ v h, HeapM.perform x.run m.config m.heap = (.ok v, h) →
      refused v { m with heap := h, status := .ok } → h = m.heap) :
    Run.Writes (settle x) target refused m := by
  unfold Attempt.Writes at writes
  unfold Run.Writes Run.Ends
  rw [settle_eq]
  generalize HeapM.perform x.run m.config m.heap = outcome at writes refuses
  rcases outcome with ⟨failure | v, h⟩
  · obtain ⟨_, rfl⟩ := writes
    exact ⟨.refl m.heap target, fun _ => rfl⟩
  · exact ⟨writes, refuses v h rfl⟩

theorem Run.writes_answer {x : HeapM Bool} {target : Value} {m : Machine}
    (accepts : x.Accepts target m.config m.heap) :
    Run.Writes (return .bool (← x)) target (fun v _ => v = .bool false) m := by
  have run : (do return .bool (← x) : Run Value).run.run m =
      (.ok (.bool (x.perform m.config m.heap).1),
        { m with heap := (x.perform m.config m.heap).2 }) := rfl
  unfold HeapM.Accepts at accepts
  unfold Run.Writes Run.Ends
  rw [run]
  generalize x.perform m.config m.heap = outcome at accepts
  rcases outcome with ⟨_ | _, h⟩
  · obtain rfl : h = m.heap := accepts
    exact ⟨.refl _ target, fun _ => rfl⟩
  · exact ⟨accepts, nofun⟩

/-- An operation that writes to what it is applied to. -/
inductive Mutation where
  | setIndex (container key v : Value)
  | setField (object : Value) (key : String) (v : Value)
  | deleteField (object : Value) (key : String)
  | writeBox (box content : Value)
  | bindSelfCapture (function : Value) (slot : Nat)
  | closeFile (handle : Value)

namespace Mutation

/-- What a mutation is applied to. -/
def target : Mutation → Value
  | setIndex container _ _ => container
  | setField object _ _ => object
  | deleteField object _ => object
  | writeBox box _ => box
  | bindSelfCapture function _ => function
  | closeFile handle => handle

def perform : Mutation → Run Value
  | setIndex container key v => settle (Value.setIndex container key v)
  | setField object key v => settle (Value.setField object key v)
  | deleteField object key => settle (Value.deleteField object key)
  | writeBox box content => return .bool (← Value.writeBox box content)
  | bindSelfCapture function slot => return .bool (← Value.bindSelfCapture function slot)
  | closeFile handle => settle (Files.closeFile handle)

/-- How a mutation tells that it was refused: it leaves a failure behind, or it answers false where
that is no value to be written. -/
def Refused (mutation : Mutation) (v : Value) (m' : Machine) : Prop :=
  match mutation with
  | setIndex .. => m'.status.isOk = false
  | setField .. => m'.status.isOk = false
  | deleteField .. => m'.status.isOk = false ∨ v = .bool false
  | _ => v = .bool false

/-- A field that was not there is not removed. -/
theorem same_of_deleteField {object : Value} {key : String} {config : Config} {h h' : Heap}
    (absent : HeapM.perform (Value.deleteField object key).run config h = (.ok (.bool false), h')) :
    h' = h := by
  unfold Value.deleteField Value.fieldsArg at absent
  cases is : (h.payload object).object? with
  | some fields =>
    rw [Attempt.bind_ok (perform_require Payload.object? config is _ _ _)] at absent
    have answer : Value.bool (fields.erase key).1.isSome = .bool false :=
      Except.ok.inj (congrArg Prod.fst absent)
    have written : h.write object (.object (fields.erase key).2) = h' := congrArg Prod.snd absent
    have holds : h.payload object = .object fields := Payload.eq_of_object? is
    rw [← written, Table.snd_erase_of_none (by simpa using answer), ← holds, h.write_payload]
  | none =>
    rw [Attempt.bind_error (perform_require_of_none config is _ _ _)] at absent
    cases absent

/-- A file handle that was closed stays as it is. -/
theorem same_of_closeFile {handle : Value} {config : Config} {h h' : Heap}
    (closed : HeapM.perform (Files.closeFile handle).run config h = (.ok (.bool false), h')) :
    h' = h := by
  rw [Files.closeFile, Attempt.bind_payloadOf] at closed
  split at closed
  · next file is =>
    have answer : Value.bool file.isOpen = .bool false :=
      Except.ok.inj (congrArg Prod.fst closed)
    have written : h.write handle (.extension (.fileHandle { file with isOpen := false })) = h' :=
      congrArg Prod.snd closed
    have same : { file with isOpen := false } = file := by
      obtain ⟨_, _, _, _⟩ := file
      simpa using answer.symm
    rw [← written, same, ← is, h.write_payload]
  · exact (congrArg Prod.snd closed).symm

/-- A mutation writes to its target at most. One that is refused writes nothing. -/
theorem writes (mutation : Mutation) (m : Machine) :
    Run.Writes mutation.perform mutation.target mutation.Refused m := by
  cases mutation with
  | setIndex container key v =>
    exact Run.writes_settle (Value.writes_setIndex container key v) nofun
  | setField object key v => exact Run.writes_settle (Value.writes_setField object key v) nofun
  | deleteField object key =>
    refine Run.writes_settle (Value.writes_deleteField object key) fun v h ok refused => ?_
    obtain failed | rfl := refused
    · cases failed
    · exact same_of_deleteField ok
  | writeBox box content => exact Run.writes_answer (Value.accepts_writeBox box content)
  | bindSelfCapture function slot =>
    exact Run.writes_answer (Value.accepts_bindSelfCapture function slot)
  | closeFile handle =>
    refine Run.writes_settle (Files.writes_closeFile handle) fun v h ok refused => ?_
    obtain rfl : v = .bool false := refused
    exact same_of_closeFile ok

end Mutation

/-! ## What is kept -/

/-- No query changes a cell, what it answers is handed back or new, and all that it builds inside is
new too. A mutation changes no cell but its target, and none at all if it is refused. -/
theorem cells_kept (m : Machine) (call : Caller) :
    (∀ query : Query, query.CallsNothing m.heap →
      Run.Returns (query.perform call) (query.handsBack? m.heap) m) ∧
    (∀ (query : Query) (answer : Value) (m' : Machine),
      (query.perform call).run.run m = (.ok answer, m') →
        ∀ part, query.Builds m.heap m'.heap answer part → m.heap.Makes m'.heap part) ∧
    ∀ mutation : Mutation, Run.Writes mutation.perform mutation.target mutation.Refused m :=
  ⟨fun query quiet => query.returns call quiet,
    fun _ _ _ ends _ builds => Query.makes_of_builds ends builds, fun mutation => mutation.writes m⟩

/-- A machine with an array that holds itself. -/
private def looped : Machine :=
  { Machine.start ⟨"linux", "2024-01-01 00:00:00", 0, 0.5⟩ [] with
    heap := .ofCells #[.ofPayload (.array #[.cell 0, .small 2, .small 1])] }

/-- Sorting the array answers a new one. The copy of the array holds itself and not the array.
Writing the array into itself past its end changes it alone. -/
theorem cells_kept_looped :
    let call : Caller := fun _ _ => giveUp
    let sort : Query := .sort (.cell 0) .null
    let copy : Query := .deepClone (.cell 0)
    let copied := ((copy.perform call).run.run looped).2.heap
    let put : Mutation := .setIndex (.cell 0) (.small 5) (.cell 0)
    sort.CallsNothing looped.heap ∧
      ((sort.perform call).run.run looped).1 = .ok (.cell 1) ∧
      looped.heap.Grows ((sort.perform call).run.run looped).2.heap ∧
      copy.Builds looped.heap copied (.cell 1) (.cell 1) ∧ looped.heap.Makes copied (.cell 1) ∧
      Run.Writes put.perform (.cell 0) put.Refused looped := by
  intro call sort copy copied put
  obtain ⟨queries, builds, mutations⟩ := cells_kept looped call
  have closed : looped.heap.IsClosed := by
    unfold Heap.IsClosed
    decide
  have inside : Value.cell 1 ∈ (copied.payload (.cell 1)).elements := by decide
  have part : copy.Builds looped.heap copied (.cell 1) (.cell 1) :=
    .copy (fun _ => Heap.Reaches.names closed rfl) (.edge .root inside) rfl
  exact ⟨rfl, rfl, (queries sort rfl).grows, part, builds copy _ _ rfl _ part, mutations put⟩

end ValueMachine
