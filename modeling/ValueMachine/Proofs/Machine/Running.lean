import ValueMachine.Machine

/-!
# Running computations

Results:
* `Attempt.bind_ok`, `Action.bind_ok`, `Run.bind_ok`: what comes after a step that has succeeded;
* `Run.ends_bind`: a sequence ends as its second part does, or as its first part is halted;
* `settle_eq`: what an operation on the heap leaves behind.
-/

namespace ValueMachine

/-! ## On the heap -/

/-- Runs a computation on the heap. -/
def HeapM.perform {α : Type} (x : HeapM α) (config : Config) (h : Heap) : α × Heap :=
  (x.run config).run h

theorem Attempt.bind_ok {α β : Type} {x : Attempt α} {config : Config} {h h' : Heap} {a : α}
    (ok : HeapM.perform x.run config h = (.ok a, h')) (f : α → Attempt β) :
    HeapM.perform (x >>= f).run config h = HeapM.perform (f a).run config h' := by
  unfold HeapM.perform at ok ⊢
  rw [ExceptT.run_bind, ReaderT.run_bind, StateT.run_bind, ok]
  rfl

theorem Attempt.bind_error {α β : Type} {x : Attempt α} {config : Config} {h h' : Heap}
    {failure : Failure} (error : HeapM.perform x.run config h = (.error failure, h'))
    (f : α → Attempt β) : HeapM.perform (x >>= f).run config h = (.error failure, h') := by
  unfold HeapM.perform at error ⊢
  rw [ExceptT.run_bind, ReaderT.run_bind, StateT.run_bind, error]
  rfl

/-- A sequence that succeeds does so step by step. -/
theorem Attempt.exists_of_bind {α β : Type} {x : Attempt α} {f : α → Attempt β} {config : Config}
    {h h' : Heap} {b : β} (ok : HeapM.perform (x >>= f).run config h = (.ok b, h')) :
    ∃ a h₁, HeapM.perform x.run config h = (.ok a, h₁) ∧
      HeapM.perform (f a).run config h₁ = (.ok b, h') := by
  generalize run : HeapM.perform x.run config h = outcome
  obtain ⟨failure | a, h₁⟩ := outcome
  · rw [Attempt.bind_error run] at ok
    cases (Prod.ext_iff.mp ok).1
  · rw [Attempt.bind_ok run] at ok
    exact ⟨a, h₁, rfl, ok⟩

/-- What starts with a look at a value goes on with what the heap holds. -/
theorem HeapM.bind_payloadOf {α : Type} (v : Value) (f : Payload → HeapM α) (config : Config)
    (h : Heap) : (payloadOf v >>= f).perform config h = (f (h.payload v)).perform config h := rfl

theorem Attempt.bind_payloadOf {α : Type} (v : Value) (f : Payload → Attempt α) (config : Config)
    (h : Heap) : HeapM.perform (liftM (payloadOf v) >>= f).run config h =
      HeapM.perform (f (h.payload v)).run config h := rfl

/-- Asking for a form that a value has. -/
theorem perform_require {α : Type} (form : Payload → Option α) (config : Config) {v : Value}
    {content : α} {h : Heap} (is : form (h.payload v) = some content)
    (operation requirement : String) (fallback : HeapM Value) :
    HeapM.perform (require form v operation requirement fallback).run config h =
      (.ok content, h) := by
  rw [require, Attempt.bind_payloadOf, is]
  rfl

/-- An argument that is answered has its form, and asking leaves the heap alone. -/
theorem require_ok {α : Type} {form : Payload → Option α} {v : Value}
    {operation requirement : String} {fallback : HeapM Value} {config : Config} {h h' : Heap}
    {a : α}
    (ok : HeapM.perform (require form v operation requirement fallback).run config h =
      (.ok a, h')) : form (h.payload v) = some a ∧ h' = h := by
  cases is : form (h.payload v) with
  | some content =>
    rw [perform_require form config is] at ok
    exact ⟨congrArg some (Except.ok.inj (Prod.ext_iff.mp ok).1), (Prod.ext_iff.mp ok).2.symm⟩
  | none =>
    rw [require, Attempt.bind_payloadOf, is] at ok
    cases (Prod.ext_iff.mp ok).1

theorem perform_require_of_none {α : Type} {form : Payload → Option α} (config : Config) {v : Value}
    {h : Heap} (no : form (h.payload v) = none) (operation requirement : String)
    (fallback : Value) :
    HeapM.perform (require form v operation requirement (return fallback)).run config h =
      (.error ⟨(Fault.argument operation requirement).status, fallback⟩, h) := by
  rw [require, Attempt.bind_payloadOf, no]
  rfl

theorem perform_failNull {α : Type} (fault : Fault) (kind : Kind) (config : Config) (h : Heap) :
    HeapM.perform (failNull fault kind : Attempt α).run config h =
      (.error ⟨fault.status, (HeapM.perform (Value.nullOf kind) config h).1⟩,
        (HeapM.perform (Value.nullOf kind) config h).2) := rfl

/-! ## On the heap and another part -/

/-- Runs a computation on the heap and another part of the machine. -/
def AttemptOn.perform {σ α : Type} (x : AttemptOn σ α) (config : Config) (s : σ) (h : Heap) :
    (Except Failure α × σ) × Heap := HeapM.perform (x.run.run s) config h

theorem AttemptOn.bind_ok {σ α β : Type} {x : AttemptOn σ α} {config : Config} {s s' : σ}
    {h h' : Heap} {a : α} (ok : x.perform config s h = ((.ok a, s'), h')) (f : α → AttemptOn σ β) :
    AttemptOn.perform (x >>= f) config s h = (f a).perform config s' h' := by
  unfold AttemptOn.perform HeapM.perform at ok ⊢
  rw [ExceptT.run_bind, StateT.run_bind, ReaderT.run_bind, StateT.run_bind, ok]
  rfl

theorem AttemptOn.bind_error {σ α β : Type} {x : AttemptOn σ α} {config : Config} {s s' : σ}
    {h h' : Heap} {failure : Failure} (error : x.perform config s h = ((.error failure, s'), h'))
    (f : α → AttemptOn σ β) :
    AttemptOn.perform (x >>= f) config s h = ((.error failure, s'), h') := by
  unfold AttemptOn.perform HeapM.perform at error ⊢
  rw [ExceptT.run_bind, StateT.run_bind, ReaderT.run_bind, StateT.run_bind, error]
  rfl

/-- A computation on the heap is one on the other part that leaves that part as it is. -/
theorem AttemptOn.perform_lift {σ α : Type} (x : Attempt α) (config : Config) (s : σ) (h : Heap) :
    AttemptOn.perform (liftM x) config s h =
      (((HeapM.perform x.run config h).1, s), (HeapM.perform x.run config h).2) := rfl

/-! ## On the machine -/

/-- An operation on the heap as an action of the machine. -/
theorem Action.lift_eq {α : Type} (x : Attempt α) (m : Machine) :
    (liftM x : Action α).run.run.run m =
      (.ok (HeapM.perform x.run m.config m.heap).1,
        { m with heap := (HeapM.perform x.run m.config m.heap).2 }) := rfl

theorem Action.bind_ok {α β : Type} {x : Action α} {m m' : Machine} {a : α}
    (ok : x.run.run.run m = (.ok (.ok a), m')) (f : α → Action β) :
    (x >>= f).run.run.run m = (f a).run.run.run m' := by
  rw [ExceptT.run_bind, ExceptT.run_bind, StateT.run_bind, ok]
  rfl

theorem Run.bind_ok {α β : Type} {x : Run α} {m m' : Machine} {a : α}
    (ok : x.run.run m = (.ok a, m'))
    (f : α → Run β) : (x >>= f).run.run m = (f a).run.run m' := by
  rw [ExceptT.run_bind, StateT.run_bind, ok]
  rfl

theorem Run.bind_payloadOf {α : Type} (v : Value) (f : Payload → Run α) (m : Machine) :
    (liftM (payloadOf v) >>= f).run.run m = (f (m.heap.payload v)).run.run m := rfl

/-- What an operation on the heap leaves behind: its result and the status `ok`, or the fallback of
a failure and its status. -/
theorem settle_eq (attempt : Attempt Value) (m : Machine) :
    (settle attempt).run.run m =
      match HeapM.perform attempt.run m.config m.heap with
      | (.ok v, h) => (.ok v, { m with heap := h, status := .ok })
      | (.error failure, h) =>
        (.ok failure.fallback, { m with heap := h, status := failure.status }) := by
  rw [settle, ExceptT.run_bind, StateT.run_bind, Action.lift_eq]
  rcases HeapM.perform attempt.run m.config m.heap with ⟨_ | v, h⟩ <;> rfl

/-- What an operation on the heap and the files leaves behind. -/
theorem settle_files_eq (x : AttemptOn FileTree Value) (m : Machine) :
    (settle x).run.run m =
      match x.perform m.config m.files m.heap with
      | ((.ok v, files), h) => (.ok v, { m with heap := h, files, status := .ok })
      | ((.error failure, files), h) =>
        (.ok failure.fallback, { m with heap := h, files, status := failure.status }) := by
  have run : (liftM x : Action Value).run.run.run m =
      (.ok (x.perform m.config m.files m.heap).1.1,
        { m with heap := (x.perform m.config m.files m.heap).2,
                 files := (x.perform m.config m.files m.heap).1.2 }) := rfl
  rw [settle, ExceptT.run_bind, StateT.run_bind, run]
  rcases x.perform m.config m.files m.heap with ⟨⟨_ | v, files⟩, h⟩ <;> rfl

/-- A computation on the heap and the files that succeeds leaves the status `ok`. -/
theorem settle_files_ok {x : AttemptOn FileTree Value} {m : Machine} {v : Value} {files : FileTree}
    {h : Heap} (ok : x.perform m.config m.files m.heap = ((.ok v, files), h)) :
    (settle x).run.run m = (.ok v, { m with heap := h, files, status := .ok }) := by
  rw [settle_files_eq, ok]

/-- An operation that succeeds on the heap leaves the status `ok`. -/
theorem settle_ok {attempt : Attempt Value} {m : Machine} {v : Value} {h : Heap}
    (ok : HeapM.perform attempt.run m.config m.heap = (.ok v, h)) :
    (settle attempt).run.run m = (.ok v, { m with heap := h, status := .ok }) := by
  rw [settle_eq, ok]

/-- Two attempts of which one fails leave the same behind only if they are the same. -/
theorem settle_eq_settle_iff {attempt attempt' : Attempt Value} {m : Machine} {failure : Failure}
    {h : Heap} (failed : HeapM.perform attempt'.run m.config m.heap = (.error failure, h))
    (ne : failure.status ≠ .ok) :
    (settle attempt).run.run m = (settle attempt').run.run m ↔
      HeapM.perform attempt.run m.config m.heap = HeapM.perform attempt'.run m.config m.heap := by
  refine ⟨fun same => ?_, fun same => by rw [settle_eq, settle_eq, same]⟩
  rw [settle_eq, settle_eq, failed] at same
  rw [failed]
  generalize HeapM.perform attempt.run m.config m.heap = outcome at same ⊢
  rcases outcome with ⟨left | v, h'⟩
  · have fallback : left.fallback = failure.fallback := Except.ok.inj (congrArg Prod.fst same)
    have status : left.status = failure.status := congrArg (fun r => r.2.status) same
    have heap : h' = h := congrArg (fun r => r.2.heap) same
    obtain ⟨_, _⟩ := left
    rw [heap, ← show Failure.mk _ _ = failure from congr (congrArg _ status) fallback]
  · exact absurd (congrArg (fun r => r.2.status) same).symm ne

namespace Run

variable {α β : Type} {m : Machine} {returns : α → Machine → Prop} {halts : Halt → Machine → Prop}

/-- How a computation of the machine ends: with a result, or halted. -/
def Ends (x : Run α) (m : Machine) (returns : α → Machine → Prop)
    (halts : Halt → Machine → Prop) : Prop :=
  match x.run.run m with
  | (.ok a, m') => returns a m'
  | (.error halt, m') => halts halt m'

theorem ends_bind {x : Run β} {f : β → Run α} :
    (x >>= f).Ends m returns halts ↔ x.Ends m (fun b m' => (f b).Ends m' returns halts) halts := by
  simp only [Ends, ExceptT.run_bind, StateT.run_bind]
  rcases x.run.run m with ⟨_ | b, m'⟩ <;> rfl

theorem Ends.mono {x : Run α} {returns' : α → Machine → Prop}
    (h : x.Ends m returns halts) (imp : ∀ a m', returns a m' → returns' a m') :
    x.Ends m returns' halts := by
  unfold Ends at h ⊢
  split <;> simp_all

theorem Ends.of_eq {x : Run α} {a : α} {m' : Machine} (eq : x.run.run m = (.ok a, m'))
    (holds : returns a m') : x.Ends m returns halts := by
  unfold Ends
  rw [eq]
  exact holds

/-- A computation that cannot be halted has a result. -/
theorem Ends.exists_ok {x : Run α} (h : x.Ends m returns halts) (no : ∀ halt m', ¬halts halt m') :
    ∃ a m', x.run.run m = (.ok a, m') ∧ returns a m' := by
  unfold Ends at h
  split at h
  · next a m' eq => exact ⟨a, m', eq, h⟩
  · exact absurd h (no _ _)

end Run

end ValueMachine
