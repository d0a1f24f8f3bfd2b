import ValueMachine.Proofs.Heap.Graph
import ValueMachine.Proofs.Machine.Running
import ValueMachine.Proofs.Sort.DefaultOrder

/-!
# Sorting arrays

A comparator is any function: what it answers may depend on all that the machine holds, and it may
change all of it. The sort asks it about elements that the array had at the start, so the machines
it meets are those that such calls lead to.

Results:
* `sort_ends`: with a comparator the sort ends as merge sort does, with a new array;
* `sort_permutes`: every comparator gives a rearrangement of the elements, a pure one that is a
  strict weak order gives a stable sort, and without one the default order is that of the result.
-/

namespace ValueMachine

/-! ## Comparators -/

section Comparators

variable (call : Caller) (comparator : Value) (items : List Value)

/-- The machines that calls of a comparator on elements of a list lead to. -/
inductive AfterCalls (m : Machine) : Machine → Prop
  | start : AfterCalls m m
  | call {m' m'' : Machine} {a b verdict : Value} (after : AfterCalls m m') (ha : a ∈ items)
    (hb : b ∈ items) (returned : (call comparator [a, b]).run.run m' = (.ok verdict, m'')) :
    AfterCalls m m''

/-- A call of the comparator on elements of a list is what is halted. -/
def HaltsInCall (m : Machine) (halt : Halt) (m' : Machine) : Prop :=
  ∃ m₁, AfterCalls call comparator items m m₁ ∧ ∃ a ∈ items, ∃ b ∈ items,
    (call comparator [a, b]).run.run m₁ = (.error halt, m')

/-- However often the comparator is called on elements of a list, its answers are those of an
order. -/
def Decides (m : Machine) (before : Value → Value → Bool) : Prop :=
  ∀ m₁, AfterCalls call comparator items m m₁ → ∀ a ∈ items, ∀ b ∈ items,
    ∃ verdict m₂, (call comparator [a, b]).run.run m₁ = (.ok verdict, m₂) ∧
      decide (m₂.heap.toNumber verdict < 0.0) = before a b

end Comparators

/-- What holds of the results of computations, from machines of an invariant to machines of it. -/
def Run.modality (invariant : Machine → Prop) (halts : Halt → Machine → Prop) : Modality Run where
  yields x P := ∀ m, invariant m → x.Ends m (fun a m' => P a ∧ invariant m') halts
  mono yields imp := fun m inv => (yields m inv).mono fun _ _ h => ⟨imp _ h.1, h.2⟩
  pure holds := fun _ inv => ⟨holds, inv⟩
  bind yields := fun m inv => Run.ends_bind.mpr ((yields m inv).mono fun _ m' h => h.1 m' h.2)

/-- What holds of the result of a plain computation. -/
def Modality.plain : Modality Id where
  yields x P := P x.run
  mono yields imp := imp _ yields
  pure holds := holds
  bind yields := yields

theorem comparatorBefore_ends (call : Caller) (comparator a b : Value) (m : Machine)
    (returns : Bool → Machine → Prop) (halts : Halt → Machine → Prop) :
    (comparatorBefore call comparator a b).Ends m returns halts ↔
      (call comparator [a, b]).Ends m
        (fun verdict m' => returns (decide (m'.heap.toNumber verdict < 0.0)) m') halts := by
  rw [comparatorBefore, Run.ends_bind]
  rfl

/-! ## Operations that answer an array -/

/-- From the first machine, a new array of the elements is answered, with the status `ok`. -/
structure AnswersArray (m m' : Machine) (w : Value) (elements : List Value) : Prop where
  new : m.heap.holds w = false
  payload : m'.heap.payload w = .array elements.toArray
  grows : m.heap.Grows m'.heap
  /-- Nothing else is changed. -/
  rest : m' = { m with heap := m'.heap, status := .ok }

/-- The array of a list, and the machine that holds it. -/
def Machine.answer (m : Machine) (elements : List Value) : Value × Machine :=
  let (w, heap) := m.heap.alloc (.ofPayload (.array elements.toArray))
  (w, { m with heap, status := .ok })

theorem answersArray_answer (m : Machine) (elements : List Value) :
    AnswersArray m (m.answer elements).2 (m.answer elements).1 elements where
  new := decide_eq_false (Nat.lt_irrefl _)
  payload := congrArg Cell.payload (m.heap.cell_alloc_self _)
  grows := m.heap.grows_alloc _
  rest := rfl

/-! ## Sorting -/

section Sorting

variable {call : Caller} {m : Machine} {array comparator : Value} {items : Array Value}

theorem arrayArg_eq (is : m.heap.payload array = .array items) (operation : String) (kind : Kind) :
    (liftM (arrayArg array operation kind) : Action (Array Value)).run.run.run m =
      (.ok (.ok items), m) := by
  have form : (m.heap.payload array).array? = some items := by rw [is]; rfl
  rw [Action.lift_eq, arrayArg, perform_require Payload.array? m.config form]

/-- With a comparator the sort ends as merge sort does, with a new array. -/
theorem sort_ends (is : m.heap.payload array = .array items) {c : Closure}
    (function : m.heap.payload comparator = .function c)
    (returns : Value → Machine → Prop) (halts : Halt → Machine → Prop) :
    (settle (Value.sort call array comparator)).Ends m returns halts ↔
      (sortM (comparatorBefore call comparator) items.toList.length items.toList).Ends m
        (fun sorted m' => returns (m'.answer sorted).1 (m'.answer sorted).2) halts := by
  have comparator_eq : (liftM (payloadOf comparator) : Action Payload).run.run.run m =
      (.ok (.ok (.function c)), m) := by
    rw [← function]; rfl
  have run : (Value.sort call array comparator).run.run.run m =
      match (sortM (comparatorBefore call comparator) items.toList.length items.toList).run.run m
        with
      | (.ok sorted, m') => (.ok (.ok (m'.heap.alloc (.ofPayload (.array sorted.toArray))).1),
          { m' with heap := (m'.heap.alloc (.ofPayload (.array sorted.toArray))).2 })
      | (.error halt, m') => (.error halt, m') := by
    rw [Value.sort, Action.bind_ok (arrayArg_eq is _ _), Action.bind_ok comparator_eq]
    dsimp only
    rw [ExceptT.run_bind, ExceptT.run_lift]
    simp only [bind_map_left, ExceptT.run_bind, StateT.run_bind]
    rcases (sortM (comparatorBefore call comparator) items.toList.length items.toList).run.run m
      with ⟨_ | sorted, m'⟩ <;> rfl
  rw [settle, Run.ends_bind]
  unfold Run.Ends
  rw [run]
  rcases (sortM (comparatorBefore call comparator) items.toList.length items.toList).run.run m
    with ⟨_ | sorted, m'⟩ <;> rfl

/-- The sort asks the comparator about elements, and comes to what merge sort can come to with the
answers that are possible. -/
theorem sort_yields (is : m.heap.payload array = .array items) {c : Closure}
    (function : m.heap.payload comparator = .function c)
    (possible : Value → Value → Bool → Prop) (halts : Halt → Machine → Prop)
    (asked : ∀ m₁, AfterCalls call comparator items.toList m m₁ → ∀ a ∈ items.toList,
      ∀ b ∈ items.toList, (call comparator [a, b]).Ends m₁
        (fun verdict m₂ => possible a b (decide (m₂.heap.toNumber verdict < 0.0))) halts) :
    (settle (Value.sort call array comparator)).Ends m
      (fun w m' => ∃ m₁ sorted, AfterCalls call comparator items.toList m m₁ ∧
        AnswersArray m₁ m' w sorted ∧ MergeSorts possible items.toList sorted) halts := by
  rw [sort_ends is function]
  let modality := Run.modality (AfterCalls call comparator items.toList m) halts
  have answers : ∀ a ∈ items.toList, ∀ b ∈ items.toList,
      modality.yields (comparatorBefore call comparator a b) (possible a b) := by
    intro a ha b hb m₁ after
    rw [comparatorBefore_ends]
    have answer := asked m₁ after a ha b hb
    unfold Run.Ends at answer ⊢
    split
    · next verdict m₂ returned =>
      rw [returned] at answer
      exact ⟨answer, .call after ha hb returned⟩
    · next halt m₂ halted =>
      rw [halted] at answer
      exact answer
  have sorts := sortM_yields modality items.toList.length items.toList answers (le_refl _)
  refine (sorts m .start).mono fun sorted m₁ h => ?_
  exact ⟨m₁, sorted, h.2, answersArray_answer m₁ sorted, h.1⟩

/-- Without a comparator the sort is merge sort by the default order. -/
theorem sort_default_eq (is : m.heap.payload array = .array items)
    (nothing : m.heap.payload comparator = .null ∨ m.heap.payload comparator = .undefined) :
    let sorted : Id (List Value) :=
      sortM (fun a b => pure (m.heap.defaultBefore a b)) items.toList.length items.toList
    (settle (Value.sort call array comparator)).run.run m =
      (.ok (m.answer sorted.run).1, (m.answer sorted.run).2) := by
  intro sorted
  have comparator_eq : (liftM (payloadOf comparator) : Action Payload).run.run.run m =
      (.ok (.ok (m.heap.payload comparator)), m) := rfl
  rw [settle, ExceptT.run_bind, StateT.run_bind, Value.sort, Action.bind_ok (arrayArg_eq is _ _),
    Action.bind_ok comparator_eq]
  rcases nothing with eq | eq <;> rw [eq] <;> rfl

theorem mergeSorts_default (h : Heap) (items : List Value) :
    MergeSorts (answersOf h.defaultBefore) items
      (sortM (fun a b => pure (h.defaultBefore a b)) items.length items : Id (List Value)).run :=
  sortM_yields Modality.plain items.length items (fun _ _ _ _ => rfl) (le_refl _)

theorem MergeSorts.isStableSort {before : Value → Value → Bool} {items sorted : List Value}
    (sorts : MergeSorts (answersOf before) items sorted) (weak : IsWeaklyOrdered before items) :
    IsStableSort before items sorted where
  perm := sorts.perm
  pairwise := sorts.pairwise weak
  stable c hc := sorts.filter_tied c (weak.mono (by simp [hc]))

/-- With a function to compare, whatever it answers and does, the sort answers a new array of the
elements that the array had, or is halted in a call of the function. If its answers are those of a
strict weak order, the array is a stable sort. With nothing to compare, it is a stable sort by the
default order. -/
theorem sort_permutes (call : Caller) (m : Machine) {array : Value} {items : Array Value}
    (is : m.heap.payload array = .array items) (comparator : Value) :
    ((m.heap.payload comparator).isFunction = true →
      (settle (Value.sort call array comparator)).Ends m
        (fun w m' => ∃ m₁ sorted, AfterCalls call comparator items.toList m m₁ ∧
          AnswersArray m₁ m' w sorted ∧ sorted.Perm items.toList)
        (HaltsInCall call comparator items.toList m) ∧
      ∀ before, Decides call comparator items.toList m before →
        IsWeaklyOrdered before items.toList →
        ∃ w m' m₁ sorted, (settle (Value.sort call array comparator)).run.run m = (.ok w, m') ∧
          AfterCalls call comparator items.toList m m₁ ∧ AnswersArray m₁ m' w sorted ∧
          IsStableSort before items.toList sorted) ∧
    (m.heap.payload comparator = .null ∨ m.heap.payload comparator = .undefined →
      ∃ w m' sorted, (settle (Value.sort call array comparator)).run.run m = (.ok w, m') ∧
        AnswersArray m m' w sorted ∧ sorted.Perm items.toList ∧
        (m.heap.HasNoBox items.toList → IsStableSort m.heap.defaultBefore items.toList sorted ∧
          ∃ numbers texts, IsInDefaultOrder m.heap items.toList sorted numbers texts)) := by
  refine ⟨fun function => ?_, fun nothing => ?_⟩
  · obtain ⟨c, function⟩ : ∃ c, m.heap.payload comparator = .function c := by
      cases eq : m.heap.payload comparator <;> simp_all [Payload.isFunction]
    refine ⟨?_, fun before decides weak => ?_⟩
    · refine (sort_yields is function (fun _ _ _ => True) (HaltsInCall call comparator items.toList m)
        fun m₁ after a ha b hb => ?_).mono fun w m' ⟨m₁, sorted, after, answers, sorts⟩ =>
          ⟨m₁, sorted, after, answers, sorts.perm⟩
      unfold Run.Ends
      split
      · trivial
      · next halt m₂ halted => exact ⟨m₁, after, a, ha, b, hb, halted⟩
    · have yields := sort_yields is function (answersOf before) (fun _ _ => False)
        fun m₁ after a ha b hb => by
          obtain ⟨verdict, m₂, returned, answer⟩ := decides m₁ after a ha b hb
          unfold Run.Ends
          rw [returned]
          exact answer
      obtain ⟨w, m', run, m₁, sorted, after, answers, sorts⟩ := yields.exists_ok (by simp)
      exact ⟨w, m', m₁, sorted, run, after, answers, sorts.isStableSort weak⟩
  · have sorts := mergeSorts_default m.heap items.toList
    refine ⟨_, _, _, sort_default_eq is nothing, answersArray_answer m _, sorts.perm,
      fun noBox => ?_⟩
    have stable := sorts.isStableSort (m.heap.isWeaklyOrdered_defaultBefore noBox)
    exact ⟨stable, _, _, stable.isInDefaultOrder noBox⟩

end Sorting

/-- An array of small integers, and a function that compares their tens. -/
def decades : Heap :=
  .ofCells #[.ofPayload (.array #[.small 21, .small 13, .small 25, .small 11]),
    .ofPayload (.function ⟨.native 0, 2, false, .byValue, [], none⟩)]

/-- The difference of the tens. -/
def compareTens : Code := fun _ _ args =>
  match args with
  | [.small a, .small b] => return some (.small (a / 10 - b / 10))
  | _ => return none

theorem sort_permutes_decades :
    let host : Host := ⟨"linux", "2024-01-01 00:00:00", 0, 0.5⟩
    let m : Machine := { Machine.start host [] with heap := decades }
    let call := callWithin compareTens 1
    let items : List Value := [.small 21, .small 13, .small 25, .small 11]
    let before : Value → Value → Bool
      | .small a, .small b => a / 10 < b / 10
      | _, _ => false
    m.heap.payload (.cell 0) = .array items.toArray ∧ (m.heap.payload (.cell 1)).isFunction = true ∧
      Decides call (.cell 1) items m before ∧ IsWeaklyOrdered before items ∧
      ∃ w m' m₁ sorted, (settle (Value.sort call (.cell 0) (.cell 1))).run.run m = (.ok w, m') ∧
        AfterCalls call (.cell 1) items m m₁ ∧ AnswersArray m₁ m' w sorted ∧
        IsStableSort before items sorted := by
  intro host m call items before
  have answer (a b : Int) : (call (.cell 1) [.small a, .small b]).run.run m =
      (.ok (.small (a / 10 - b / 10)), m) := rfl
  have small : ∀ v ∈ items, ∃ n ∈ [21, 13, 25, 11], v = .small n := by decide
  have same : ∀ m₁, AfterCalls call (.cell 1) items m m₁ → m₁ = m := by
    intro m₁ after
    induction after with
    | start => rfl
    | @call m' m'' a b verdict _ ha hb returned ih =>
      subst ih
      obtain ⟨x, _, rfl⟩ := small a ha
      obtain ⟨y, _, rfl⟩ := small b hb
      rw [answer] at returned
      exact (congrArg Prod.snd returned).symm
  have signs : ∀ a ∈ [21, 13, 25, 11], ∀ b ∈ [21, 13, 25, 11],
      decide (Number.ofInt (a / 10 - b / 10) < 0.0) = decide (a / 10 < b / 10) := by
    decide +kernel
  have decides : Decides call (.cell 1) items m before := by
    intro m₁ after a ha b hb
    obtain rfl := same m₁ after
    obtain ⟨x, hx, rfl⟩ := small a ha
    obtain ⟨y, hy, rfl⟩ := small b hb
    exact ⟨_, _, answer x y, signs x hx y hy⟩
  have weak : IsWeaklyOrdered before items :=
    { irrefl := by decide, trans := by decide, incomp_trans := by decide }
  exact ⟨rfl, rfl, decides, weak, ((sort_permutes call m rfl (.cell 1)).1 rfl).2 before decides weak⟩

end ValueMachine
