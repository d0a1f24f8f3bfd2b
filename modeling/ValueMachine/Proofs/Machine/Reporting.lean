import ValueMachine.Proofs.Machine.Running

/-!
# Outcomes that do not depend on the status

An operation on the heap does not see the status. When it is settled the status is replaced, so
nothing is left of the one before, if every failure has a status of its own. The rules here follow
the structure of a computation.

Results:
* `Attempt.Reports` and the rules for it: every failure has a code and a message;
* `Action.Settles` and the rules for it: those that can be halted or call functions;
* `Run.settles_settle`: what is settled leaves the same behind whatever the status was;
* `Run.Settles.bind`: so does what goes on without publishing.
-/

namespace ValueMachine

/-- The status of a failure: a code other than `ok`, and a message. -/
structure Status.IsFailure (s : Status) : Prop where
  code : s.code ≠ .ok
  message : s.message ≠ ""

theorem Fault.isFailure (f : Fault) : f.status.IsFailure := ⟨f.code_ne_ok, f.message_ne_empty⟩

/-! ## On the heap -/

namespace Attempt

variable {α β : Type}

/-- Whenever the computation fails, its failure has a code and a message. -/
def Reports (x : Attempt α) : Prop :=
  ∀ config (h : Heap) failure, (HeapM.perform x.run config h).1 = .error failure →
    failure.status.IsFailure

theorem reports_pure (a : α) : Reports (pure a) := fun _ _ _ => nofun

theorem reports_get : Reports (get : Attempt Heap) := fun _ _ _ => nofun

theorem reports_read : Reports (read : Attempt Config) := fun _ _ _ => nofun

/-- What cannot fail needs no report. -/
theorem reports_lift (x : HeapM α) : Reports (liftM x : Attempt α) := fun _ _ _ => nofun

theorem Reports.bind {x : Attempt α} {f : α → Attempt β} (first : Reports x)
    (next : ∀ a, Reports (f a)) : Reports (x >>= f) := by
  intro config h failure failed
  have reported := first config h
  generalize run : HeapM.perform x.run config h = outcome at reported
  obtain ⟨_ | a, h₁⟩ := outcome
  · rw [bind_error run] at failed
    cases failed
    exact reported _ rfl
  · rw [bind_ok run] at failed
    exact next a config h₁ failure failed

/-- What comes after a step that cannot fail. -/
theorem reports_after (x : HeapM α) {f : α → Attempt β} (next : ∀ a, Reports (f a)) :
    Reports (liftM x >>= f) :=
  (reports_lift x).bind next

theorem reports_mapM (f : α → Attempt β) (l : List α) (each : ∀ a ∈ l, Reports (f a)) :
    Reports (l.mapM f) := by
  induction l with
  | nil => exact reports_pure _
  | cons a l ih =>
    rw [List.forall_mem_cons] at each
    rw [List.mapM_cons]
    exact each.1.bind fun _ => (ih each.2).bind fun _ => reports_pure _

/-! ### Failures -/

theorem reports_fail (fault : Fault) (fallback : Value) :
    Reports (fail fault fallback : Attempt α) := by
  intro config h failure failed
  cases failed
  exact fault.isFailure

theorem reports_failNull (fault : Fault) (kind : Kind) :
    Reports (failNull fault kind : Attempt α) :=
  reports_after _ fun _ => reports_fail _ _

theorem reports_require (form : Payload → Option α) (v : Value) (operation requirement : String)
    (fallback : HeapM Value) : Reports (require form v operation requirement fallback) := by
  refine reports_after _ fun p => ?_
  split
  · exact reports_pure _
  · exact reports_after _ fun _ => reports_fail _ _

theorem reports_textArg (v : Value) (operation label : String) (kind : Kind) :
    Reports (textArg v operation label kind) := reports_require _ _ _ _ _

theorem reports_numberArg (v : Value) (operation label : String) (kind : Kind) :
    Reports (numberArg v operation label kind) := reports_require _ _ _ _ _

theorem reports_arrayArg (v : Value) (operation : String) (kind : Kind) :
    Reports (arrayArg v operation kind) := reports_require _ _ _ _ _

end Attempt

/-! ## On the machine -/

/-- The computation is not halted and changes nothing but the heap. What it does is the same
whatever the status is, and a failure has a code and a message. -/
def Action.Settles (x : Action Value) (m : Machine) : Prop :=
  ∃ outcome h, (∀ failure, outcome = .error failure → failure.status.IsFailure) ∧
    ∀ prior, x.run.run.run { m with status := prior } =
      (.ok outcome, { m with heap := h, status := prior })

/-- The computation has a result and changes nothing but the heap and the status. The result, the
heap and the status that it leaves are the same whatever the status is before, and that status is
`ok` without a message or has a code and a message. -/
def Run.Settles (x : Run Value) (m : Machine) : Prop :=
  ∃ v h status, (status = .ok ∨ status.IsFailure) ∧
    ∀ prior, x.run.run { m with status := prior } = (.ok v, { m with heap := h, status := status })

/-- The computation has a result and changes nothing but the heap. Result and heap are the same
whatever the status is, and the status stays as it is. -/
def Run.IgnoresStatus (x : Run Value) (m : Machine) : Prop :=
  ∃ v h, ∀ prior,
    x.run.run { m with status := prior } = (.ok v, { m with heap := h, status := prior })

variable {m : Machine}

theorem Action.settles_lift {x : Attempt Value} (reports : Attempt.Reports x) (m : Machine) :
    Action.Settles (liftM x) m :=
  ⟨(HeapM.perform x.run m.config m.heap).1, (HeapM.perform x.run m.config m.heap).2,
    reports m.config m.heap, fun prior => Action.lift_eq x { m with status := prior }⟩

theorem Action.settles_heap (x : HeapM Value) (m : Machine) : Action.Settles (liftM x) m :=
  ⟨.ok (x.perform m.config m.heap).1, (x.perform m.config m.heap).2, nofun, fun _ => rfl⟩

theorem Action.settles_payloadOf {v : Value} {f : Payload → Action Value} :
    Action.Settles (liftM (payloadOf v) >>= f) m ↔ Action.Settles (f (m.heap.payload v)) m :=
  Iff.rfl

theorem Action.settles_bind {α : Type} {x : Attempt α} {f : α → Action Value}
    (reports : Attempt.Reports x)
    (next : ∀ a h, HeapM.perform x.run m.config m.heap = (.ok a, h) →
      Action.Settles (f a) { m with heap := h }) : Action.Settles (liftM x >>= f) m := by
  have run : ∀ prior, (liftM x >>= f).run.run.run { m with status := prior } =
      match HeapM.perform x.run m.config m.heap with
      | (.ok a, h) => (f a).run.run.run { m with heap := h, status := prior }
      | (.error failure, h) => (.ok (.error failure), { m with heap := h, status := prior }) := by
    intro prior
    rw [ExceptT.run_bind, ExceptT.run_bind, StateT.run_bind, Action.lift_eq]
    dsimp only
    rcases HeapM.perform x.run m.config m.heap with ⟨_ | a, h⟩ <;> rfl
  have reported := reports m.config m.heap
  generalize HeapM.perform x.run m.config m.heap = ended at run reported next
  obtain ⟨failure | a, h⟩ := ended
  · refine ⟨.error failure, h, fun failure' eq => ?_, run⟩
    cases eq
    exact reported failure rfl
  · obtain ⟨outcome, h', failures, same⟩ := next a h rfl
    exact ⟨outcome, h', failures, fun prior => (run prior).trans (same prior)⟩

/-- What is settled leaves nothing of the status before. -/
theorem Run.settles_settle {x : Action Value} (settles : x.Settles m) :
    Run.Settles (settle x) m := by
  obtain ⟨outcome, h, failures, same⟩ := settles
  have run : ∀ prior, (settle x).run.run { m with status := prior } = match outcome with
      | .ok v => (.ok v, { m with heap := h, status := .ok })
      | .error failure =>
        (.ok failure.fallback, { m with heap := h, status := failure.status }) := by
    intro prior
    rw [settle, ExceptT.run_bind, StateT.run_bind, same]
    cases outcome <;> rfl
  cases outcome with
  | ok v => exact ⟨v, h, .ok, .inl rfl, run⟩
  | error failure => exact ⟨_, h, failure.status, .inr (failures failure rfl), run⟩

theorem Run.settles_attempt {x : Attempt Value} (reports : Attempt.Reports x) (m : Machine) :
    Run.Settles (settle x) m :=
  settles_settle (Action.settles_lift reports m)

theorem Run.settles_payloadOf {v : Value} {f : Payload → Run Value} :
    Run.Settles (liftM (payloadOf v) >>= f) m ↔ Run.Settles (f (m.heap.payload v)) m :=
  Iff.rfl

/-- What leaves the status alone may come after what is settled. -/
theorem Run.Settles.bind {x : Run Value} {f : Value → Run Value} (settles : x.Settles m)
    (next : ∀ v m₁, (f v).IgnoresStatus m₁) : Run.Settles (x >>= f) m := by
  obtain ⟨v, h, status, published, same⟩ := settles
  obtain ⟨w, h', rest⟩ := next v { m with heap := h }
  exact ⟨w, h', status, published, fun prior => (Run.bind_ok (same prior) f).trans (rest status)⟩

theorem Run.ignoresStatus_pure (v : Value) (m : Machine) : Run.IgnoresStatus (pure v) m :=
  ⟨v, m.heap, fun _ => rfl⟩

theorem Run.ignoresStatus_payloadOf {v : Value} {f : Payload → Run Value} :
    Run.IgnoresStatus (liftM (payloadOf v) >>= f) m ↔ Run.IgnoresStatus (f (m.heap.payload v)) m :=
  Iff.rfl

/-- A computation on the heap does not see the status. -/
theorem Run.ignoresStatus_lift (x : HeapM Value) (m : Machine) :
    Run.IgnoresStatus (liftM x) m :=
  ⟨(x.perform m.config m.heap).1, (x.perform m.config m.heap).2, fun _ => rfl⟩

end ValueMachine
