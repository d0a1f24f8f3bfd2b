import ValueMachine.Call
import ValueMachine.Proofs.Machine.Preserving

/-!
# Computations that go on with a history

A computation operates if it takes a heap by steps to the one that it leaves behind, also where it
fails or is halted. The rules here follow the structure of a computation, whatever it reads and writes
besides the heap.

Results:
* `HeapM.Operates`, `Attempt.Operates`, `AttemptOn.Operates`, `Action.Operates`, `Run.Operates` and the
  rules for them;
* `operates_callWithin`: calls operate if the bodies do, however they are nested.
-/

namespace ValueMachine

open History

variable {α β σ : Type}

/-! ## On the heap -/

/-- The computation takes the heap on by steps. -/
def HeapM.Operates (x : HeapM α) : Prop :=
  ∀ config (h : Heap), Leads h (x.perform config h).2

/-- The computation takes the heap on by steps, also where it fails. -/
def Attempt.Operates (x : Attempt α) : Prop := HeapM.Operates x.run

namespace HeapM

theorem Preserves.operates {x : HeapM α} (preserves : x.Preserves) : x.Operates :=
  fun config h => (preserves config h).leads

theorem Creates.operates {x : HeapM Value} (creates : x.Creates) : x.Operates :=
  creates.preserves.operates

theorem operates_makeFunction (entry : EntryPoint) (paramCount : Nat) (needsReceiver : Bool)
    (mode : CaptureMode) (captured : List Value) :
    (Value.makeFunction entry paramCount needsReceiver mode captured).Operates := by
  intro config h
  generalize ran :
    (Value.makeFunction entry paramCount needsReceiver mode captured).perform config h = outcome
  obtain ⟨v, h'⟩ := outcome
  obtain ⟨h₁, held, _, _, alloc⟩ := Value.makeFunction_eq ran
  obtain ⟨rfl, rfl⟩ := Prod.ext_iff.mp alloc
  exact (Transition.make ran (congrArg Payload.closure? (h₁.payload_alloc_self _))).leads

theorem operates_bindReceiver (function receiver : Value) :
    (Value.bindReceiver function receiver).Operates := by
  intro config h
  by_cases kept : ∀ c, h.closure? function = some c → c.receiver.isSome = true
  · rw [Value.bindReceiver_eq_self kept]
    exact .refl h
  · simp only [not_forall] at kept
    obtain ⟨c, is, free⟩ := kept
    exact (Transition.bind is (Option.not_isSome_iff_eq_none.mp free) rfl).leads

theorem operates_bindSelfCapture (function : Value) (slot : Nat) :
    (Value.bindSelfCapture function slot).Operates := by
  intro config h
  generalize ran : (Value.bindSelfCapture function slot).perform config h = outcome
  obtain ⟨answer, h'⟩ := outcome
  obtain ⟨_, rfl⟩ | ⟨rfl, _⟩ := Value.bindSelfCapture_eq ran
  · exact .refl _
  · exact (Transition.bindSelf ran).leads

theorem operates_writeBox (box content : Value) : (Value.writeBox box content).Operates := by
  intro config h
  generalize ran : (Value.writeBox box content).perform config h = outcome
  obtain ⟨answer, h'⟩ := outcome
  obtain ⟨_, rfl⟩ | ⟨rfl, _⟩ := Value.writeBox_eq ran
  · exact .refl _
  · exact (Transition.write ran).leads

end HeapM

namespace Attempt

theorem Preserves.operates {x : Attempt α} (preserves : Preserves x) : Operates x :=
  fun config h => (preserves config h).1.leads

theorem Creates.operates {x : Attempt Value} (creates : Creates x) : Operates x :=
  creates.preserves.operates

theorem Operates.bind {x : Attempt α} {f : α → Attempt β} (first : Operates x)
    (next : ∀ a, Operates (f a)) : Operates (x >>= f) := by
  intro config h
  have steps := first config h
  generalize run : HeapM.perform x.run config h = outcome at steps
  obtain ⟨_ | a, h₁⟩ := outcome
  · rw [bind_error run]
    exact steps
  · rw [bind_ok run]
    exact steps.trans (next a config h₁)

/-- What comes after an argument of some form may count on the form. -/
theorem operates_require_bind {form : Payload → Option α} {v : Value}
    {operation requirement : String} {fallback : HeapM Value} (creates : fallback.Creates)
    {f : α → Attempt β} (next : ∀ a config h, form (Heap.payload h v) = some a →
      Leads h (HeapM.perform (f a).run config h).2) :
    Operates (require form v operation requirement fallback >>= f) := by
  intro config h
  have steps := (preserves_require form v operation requirement creates).operates config h
  generalize run : HeapM.perform (require form v operation requirement fallback).run config h =
    outcome at steps
  obtain ⟨_ | a, h₁⟩ := outcome
  · rw [bind_error run]
    exact steps
  · rw [bind_ok run]
    obtain ⟨is, rfl⟩ := require_ok run
    exact next a config h₁ is

end Attempt

/-! ## On the heap and another part -/

/-- The computation takes the heap on by steps, whatever the other part is. -/
def AttemptOn.Operates (x : AttemptOn σ α) : Prop :=
  ∀ config s h, Leads h (x.perform config s h).2

namespace AttemptOn

theorem operates_pure (a : α) : Operates (pure a : AttemptOn σ α) := fun _ _ h => .refl h

theorem operates_get : Operates (get : AttemptOn σ σ) := fun _ _ h => .refl h

theorem operates_set (s : σ) : Operates (set s : AttemptOn σ PUnit) := fun _ _ h => .refl h

theorem operates_lift {x : Attempt α} (operates : Attempt.Operates x) :
    Operates (liftM x : AttemptOn σ α) := fun config _ h => operates config h

theorem operates_heap {x : HeapM α} (operates : x.Operates) :
    Operates (liftM x : AttemptOn σ α) := fun config _ h => operates config h

theorem operates_fail (fault : Fault) (fallback : Value) :
    Operates (liftM (fail fault fallback : Attempt α) : AttemptOn σ α) := fun _ _ h => .refl h

theorem Operates.bind {x : AttemptOn σ α} {f : α → AttemptOn σ β} (first : Operates x)
    (next : ∀ a, Operates (f a)) : Operates (x >>= f) := by
  intro config s h
  have steps := first config s h
  generalize run : x.perform config s h = outcome at steps
  obtain ⟨⟨_ | a, s₁⟩, h₁⟩ := outcome
  · rw [bind_error run]
    exact steps
  · rw [bind_ok run]
    exact steps.trans (next a config s₁ h₁)

theorem operates_mapM (f : α → AttemptOn σ β) (l : List α) (each : ∀ a, Operates (f a)) :
    Operates (l.mapM f) := by
  induction l with
  | nil => exact operates_pure _
  | cons a l ih =>
    rw [List.mapM_cons]
    exact (each a).bind fun _ => ih.bind fun _ => operates_pure _

end AttemptOn

/-! ## On the machine -/

/-- The computation takes the heap of the machine on by steps, also where it is halted. -/
def Run.Operates (x : Run α) : Prop :=
  ∀ m : Machine, Leads m.heap (x.run.run m).2.heap

/-- The computation takes the heap of the machine on by steps, also where it fails or is halted. -/
def Action.Operates (x : Action α) : Prop := Run.Operates x.run

namespace Run

theorem operates_pure (a : α) : (pure a : Run α).Operates := fun m => .refl m.heap

theorem operates_throw (halt : Halt) : (throw halt : Run α).Operates := fun m => .refl m.heap

theorem operates_setStatus (status : Status) : (setStatus status).Operates :=
  fun m => .refl m.heap

theorem operates_printOut (content : List Char) : (printOut content).Operates :=
  fun m => .refl m.heap

theorem operates_get : (get : Run Machine).Operates := fun m => .refl m.heap

theorem operates_fatal (message : String) : (fatal message : Run α).Operates :=
  fun m => .refl m.heap

theorem operates_heap {x : HeapM α} (operates : x.Operates) : (liftM x : Run α).Operates :=
  fun m => operates m.config m.heap

theorem operates_observe (f : Heap → α) : (liftM (observe f) : Run α).Operates :=
  operates_heap (HeapM.preserves_observe f).operates

theorem Operates.bind {x : Run α} {f : α → Run β} (first : x.Operates)
    (next : ∀ a, (f a).Operates) : (x >>= f).Operates := by
  intro m
  have steps := first m
  rw [ExceptT.run_bind, StateT.run_bind]
  generalize x.run.run m = outcome at steps
  obtain ⟨_ | a, m'⟩ := outcome
  · exact steps
  · exact steps.trans (next a m')

end Run

namespace Action

theorem operates_pure (a : α) : Operates (pure a : Action α) := Run.operates_pure _

theorem operates_machine : Operates (getThe Machine : Action Machine) := fun m => .refl m.heap

theorem operates_run {x : Run α} (operates : x.Operates) : Operates (ExceptT.lift x) :=
  operates.bind fun _ => Run.operates_pure _

theorem operates_lift {x : Attempt α} (operates : Attempt.Operates x) :
    Operates (liftM x : Action α) := fun m => operates m.config m.heap

theorem operates_heap {x : HeapM α} (operates : x.Operates) : Operates (liftM x : Action α) :=
  fun m => operates m.config m.heap

theorem operates_files {x : AttemptOn FileTree α} (operates : x.Operates) :
    Operates (liftM x : Action α) := fun m => operates m.config m.files m.heap

theorem operates_environment {x : AttemptOn Environment α} (operates : x.Operates) :
    Operates (liftM x : Action α) := fun m => operates m.config m.environment m.heap

theorem Operates.bind {x : Action α} {f : α → Action β} (first : Operates x)
    (next : ∀ a, Operates (f a)) : Operates (x >>= f) := by
  refine Run.Operates.bind first fun outcome => ?_
  cases outcome with
  | ok a => exact next a
  | error failure => exact Run.operates_pure _

end Action

/-- What publishes the outcome of an action. -/
theorem operates_settle {x : Action Value} (operates : Action.Operates x) :
    (settle x).Operates := by
  refine Run.Operates.bind operates fun outcome => ?_
  cases outcome <;> exact fun m => .refl m.heap

theorem operates_attempt {x : Attempt Value} (operates : Attempt.Operates x) :
    (settle x).Operates := operates_settle (Action.operates_lift operates)

/-! ## Calls -/

/-- Bodies that take the heap on by steps if the calls that they make do. -/
def Body.Operates (body : Body) : Prop :=
  ∀ call args, (∀ function args, (call function args).Operates) → (body call args).Operates

def Code.Operates (code : Code) : Prop := ∀ entry, Body.Operates (code entry)

theorem operates_enter {code : Code} (operates : code.Operates) {call : Caller}
    (calls : ∀ function args, (call function args).Operates) (function : Value) (c : Closure)
    (args : List Value) : (enter code call function c args).Operates := by
  refine Run.operates_get.bind fun m => ?_
  dsimp only
  split
  · exact Run.operates_fatal _
  · exact (operates c.entry call _ calls).bind fun _ => Run.operates_pure _

theorem operates_callWithin {code : Code} (operates : code.Operates) (depth : Nat) :
    ∀ function args, (callWithin code depth function args).Operates := by
  induction depth with
  | zero => exact fun _ _ => Run.operates_throw _
  | succ depth ih =>
    intro function args
    refine (Run.operates_observe _).bind fun p => ?_
    split
    · exact operates_enter operates ih _ _ _
    · exact (Run.operates_setStatus _).bind fun _ => Run.operates_pure _

end ValueMachine
