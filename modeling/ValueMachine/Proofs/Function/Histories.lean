import Mathlib.Data.List.Forall2
import ValueMachine.Proofs.Heap.Graph
import ValueMachine.Proofs.Machine.Running
import ValueMachine.Value.Functions

/-!
# Histories of functions

Functions are made and bound, captures are made the function itself, and boxes are written. A
history is the list of these events, the latest one first. All else that happens to a heap in
between may change any cell that is no function and no box, and may add cells, but no function; and
cells may go.

Results:
* `makeFunction_eq`, `bindReceiver_eq`, `bindSelfCapture_eq`, `writeBox_eq`: what each operation
  leaves behind;
* `Transition.change`: how a step changes functions and boxes;
* `Evolves.trans`, `Leads.trans`: histories go on.
-/

namespace ValueMachine

/-! ## Functions and boxes of a heap -/

/-- The content of a box. -/
def Payload.box? : Payload → Option Value
  | box content => some content
  | _ => none

namespace Heap

def closure? (h : Heap) (v : Value) : Option Closure := (h.payload v).closure?

def boxed? (h : Heap) (v : Value) : Option Value := (h.payload v).box?

variable {h h' h'' : Heap}

theorem payload_of_closure? {v : Value} {c : Closure} (is : h.closure? v = some c) :
    h.payload v = .function c := by
  rw [closure?] at is
  cases payload : h.payload v with
  | function c' => rw [payload] at is; cases is; rfl
  | _ => rw [payload] at is; cases is

theorem closure?_of_payload {v : Value} {c : Closure} (is : h.payload v = .function c) :
    h.closure? v = some c := by
  rw [closure?, is]
  rfl

theorem payload_of_boxed? {b content : Value} (is : h.boxed? b = some content) :
    h.payload b = .box content := by
  rw [boxed?] at is
  cases payload : h.payload b with
  | box content' => rw [payload] at is; cases is; rfl
  | _ => rw [payload] at is; cases is

theorem unbox_of_boxed? {b content : Value} (is : h.boxed? b = some content) :
    h.unbox b = content := by
  rw [unbox, payload_of_boxed? is]

theorem isSome_boxed? (v : Value) : (h.boxed? v).isSome = (h.payload v).isBox := by
  rw [boxed?]
  cases h.payload v <;> rfl

/-! ### A new cell -/

theorem payload_alloc_self (h : Heap) (c : Cell) :
    (h.alloc c).2.payload (h.alloc c).1 = c.payload :=
  congrArg Cell.payload (h.cell_alloc_self c)

theorem payload_new (h : Heap) (c : Cell) : h.payload (h.alloc c).1 = .undefined :=
  payload_of_size_le (Nat.le_refl h.size)

theorem payload_alloc (h : Heap) (c : Cell) :
    (h.alloc c).2.payload = Function.update h.payload (h.alloc c).1 c.payload := by
  refine (Function.update_eq_iff.mpr ⟨(h.payload_alloc_self c).symm, fun v ne => ?_⟩).symm
  cases v with
  | cell address =>
    have other : address ≠ h.size := fun eq => ne (by rw [eq]; rfl)
    rcases Nat.lt_or_ge address h.size with lt | ge
    · exact (congrArg Cell.payload (h.cell_alloc_of_lt c lt)).symm
    · have beyond : (h.alloc c).2.size ≤ address := by rw [size_alloc]; omega
      rw [payload_of_size_le ge, payload_of_size_le beyond]
  | _ => rfl

theorem closure?_alloc (h : Heap) (c : Cell) :
    (h.alloc c).2.closure? = Function.update h.closure? (h.alloc c).1 c.payload.closure? := by
  refine Eq.trans ?_ (Function.comp_update Payload.closure? h.payload (h.alloc c).1 c.payload)
  rw [← payload_alloc]
  rfl

/-- A new cell with a function is one function more. -/
theorem closure?_alloc_function (h : Heap) (c : Closure) :
    (h.alloc (.ofPayload (.function c))).2.closure? =
      Function.update h.closure? (h.alloc (.ofPayload (.function c))).1 (some c) :=
  h.closure?_alloc _

theorem closure?_new (h : Heap) (c : Cell) : h.closure? (h.alloc c).1 = none := by
  rw [closure?, payload_new]
  rfl

theorem boxed?_alloc (h : Heap) (c : Cell) {b content : Value} (is : h.boxed? b = some content) :
    (h.alloc c).2.boxed? b = some content := by
  have ne : b ≠ (h.alloc c).1 := by
    rintro rfl
    rw [boxed?, payload_new] at is
    cases is
  rw [boxed?, payload_alloc, Function.update_of_ne ne]
  exact is

/-! ### A cell that is written -/

theorem update_of_not_holds {v : Value} (not : ¬h.holds v = true) (change : Payload → Payload) :
    h.update v change = h := by
  cases v with
  | cell address =>
    have le : h.cells.size ≤ address := Nat.le_of_not_lt fun lt => not (decide_eq_true lt)
    have same : h.cells.modify address (fun c => { c with payload := change c.payload }) =
        h.cells := by
      refine Array.ext (by simp) fun i _ lt => ?_
      rw [Array.getElem_modify, if_neg (by omega)]
    exact congrArg (fun cells => { h with cells }) same
  | _ => rfl

theorem holds_of_payload {v : Value} {p : Payload} (is : h.payload v = p)
    (cell : p.closure?.isSome = true ∨ p.isBox = true) : h.holds v = true := by
  cases v with
  | cell address =>
    refine decide_eq_true (holds_of_payload_ne rfl fun undefined => ?_)
    rw [undefined] at is
    rw [← is] at cell
    exact cell.elim Bool.noConfusion Bool.noConfusion
  | _ =>
    rw [← is] at cell
    exact cell.elim Bool.noConfusion Bool.noConfusion

theorem payload_update (change : Payload → Payload) {v : Value} (held : h.holds v = true) :
    (h.update v change).payload = Function.update h.payload v (change (h.payload v)) :=
  (Function.update_eq_iff.mpr ⟨(h.payload_update_self change held).symm,
    fun _ ne => (h.payload_update_of_ne change ne).symm⟩).symm

theorem closure?_write (p : Payload) {v : Value} (held : h.holds v = true) :
    (h.write v p).closure? = Function.update h.closure? v p.closure? := by
  refine Eq.trans ?_ (Function.comp_update Payload.closure? h.payload v p)
  rw [← payload_update (fun _ => p) held]
  rfl

theorem boxed?_write (p : Payload) {v : Value} (held : h.holds v = true) :
    (h.write v p).boxed? = Function.update h.boxed? v p.box? := by
  refine Eq.trans ?_ (Function.comp_update Payload.box? h.payload v p)
  rw [← payload_update (fun _ => p) held]
  rfl

/-! ### Heaps with the same functions -/

/-- The later heap has the functions of the earlier one and no others, and its boxes as they
were. -/
structure Spares (h h' : Heap) : Prop where
  functions : h'.closure? = h.closure?
  boxes {b content : Value} : h.boxed? b = some content → h'.boxed? b = some content

theorem Spares.refl (h : Heap) : h.Spares h := ⟨rfl, id⟩

theorem Spares.trans (spares : h.Spares h') (spares' : h'.Spares h'') : h.Spares h'' :=
  ⟨spares'.functions.trans spares.functions, fun is => spares'.boxes (spares.boxes is)⟩

theorem Spares.isSome_boxed? (spares : h.Spares h') {b : Value} (is : (h.boxed? b).isSome = true) :
    (h'.boxed? b).isSome = true := by
  obtain ⟨content, is⟩ := Option.isSome_iff_exists.mp is
  rw [spares.boxes is]
  rfl

theorem spares_alloc (h : Heap) {c : Cell} (none : c.payload.closure? = none) :
    h.Spares (h.alloc c).2 := by
  refine ⟨?_, h.boxed?_alloc c⟩
  rw [closure?_alloc, none, ← h.closure?_new c, Function.update_eq_self]

/-- A cell may change that is the same function or box afterwards, or neither before nor after. -/
theorem spares_update (h : Heap) (v : Value) {change : Payload → Payload}
    (closure : (change (h.payload v)).closure? = h.closure? v)
    (box : (change (h.payload v)).box? = h.boxed? v) : h.Spares (h.update v change) := by
  by_cases held : h.holds v = true
  · have same {α : Type} (form : Payload → Option α) (kept : form (change (h.payload v)) =
        form (h.payload v)) (w : Value) :
        form ((h.update v change).payload w) = form (h.payload w) := by
      rw [payload_update change held]
      by_cases eq : w = v
      · rw [eq, Function.update_self, kept]
      · rw [Function.update_of_ne eq]
    exact ⟨funext (same _ closure), fun {b _} is => (same _ box b).trans is⟩
  · rw [update_of_not_holds held change]
    exact .refl h

theorem spares_write (h : Heap) {v : Value} {p p' : Payload} (is : h.payload v = p)
    (closure : p'.closure? = p.closure?) (box : p'.box? = p.box?) : h.Spares (h.write v p') := by
  subst is
  exact h.spares_update v closure box

/-- A cell that goes leaves the cells of the heap as they are. -/
theorem spares_drop (h : Heap) (v : Value) : h.Spares (h.drop v) := ⟨rfl, id⟩

end Heap

/-! ## What the operations do -/

namespace Closure

/-- The copy of a function that is bound to a receiver. -/
def boundTo (c : Closure) (source receiver : Value) : Closure :=
  { c with captured := c.captured.map (Value.captureForCopy source), receiver := some receiver }

/-- The function after a capture has been made the function itself. -/
def withSelf (c : Closure) (function : Value) (slot : Nat) : Closure :=
  { c with captured := c.captured.set slot (.self function) }

end Closure

namespace Value

open Heap (Spares)

variable {h h' : Heap}

/-- What a function holds for a variable that it captures: the variable's own box, if it has one,
and under capture by reference a box in any case. -/
def IsCaptureOf (h h' : Heap) (mode : CaptureMode) (v : Value) (k : Capture) : Prop :=
  ∃ w, k = .strong w ∧ (mode = .byReference → (h'.boxed? w).isSome = true) ∧
    ((h.boxed? v).isSome = true → w = v)

theorem captureOf_spec (mode : CaptureMode) (v : Value) (config : Config) (h : Heap) :
    h.Spares ((captureOf mode v).perform config h).2 ∧
      IsCaptureOf h ((captureOf mode v).perform config h).2 mode v
        ((captureOf mode v).perform config h).1 := by
  have run : (captureOf mode v).perform config h =
      (if mode = .byReference && !(h.payload v).isBox then do return .strong (← ofBox v)
        else return .strong v : HeapM Capture).perform config h := rfl
  rw [run]
  split
  · next wraps =>
    obtain ⟨_, notBox⟩ := Bool.and_eq_true_iff.mp wraps
    refine ⟨h.spares_alloc rfl, _, rfl, fun _ => ?_, fun is => ?_⟩
    · exact (congrArg (fun p => (Payload.box? p).isSome) (h.payload_alloc_self _)).trans rfl
    · rw [h.isSome_boxed?] at is
      rw [is] at notBox
      cases notBox
  · next keeps =>
    refine ⟨.refl h, v, rfl, fun reference => ?_, fun _ => rfl⟩
    show (h.boxed? v).isSome = true
    rw [h.isSome_boxed?]
    cases is : (h.payload v).isBox with
    | true => rfl
    | false =>
      rw [reference, is] at keeps
      exact absurd rfl keeps

/-- The captures of a function, one for each variable. -/
theorem captureOf_mapM_spec (mode : CaptureMode) (captured : List Value) (config : Config) :
    ∀ h : Heap, h.Spares ((captured.mapM (captureOf mode)).perform config h).2 ∧
      List.Forall₂ (IsCaptureOf h ((captured.mapM (captureOf mode)).perform config h).2 mode)
        captured ((captured.mapM (captureOf mode)).perform config h).1 := by
  induction captured with
  | nil => intro h; exact ⟨.refl h, .nil⟩
  | cons v captured ih =>
    intro h
    rw [List.mapM_cons]
    obtain ⟨spares, w, strong, boxed, own⟩ := captureOf_spec mode v config h
    obtain ⟨spares', others⟩ := ih ((captureOf mode v).perform config h).2
    refine ⟨spares.trans spares', .cons ⟨w, strong, ?_, own⟩ (others.imp ?_)⟩
    · exact fun reference => spares'.isSome_boxed? (boxed reference)
    · rintro u k ⟨w, strong, boxed, own⟩
      exact ⟨w, strong, boxed, fun is => own (spares.isSome_boxed? is)⟩

/-- A function is made in a new cell, after the boxes of its captures. -/
theorem makeFunction_eq {entry : EntryPoint} {paramCount : Nat} {needsReceiver : Bool}
    {mode : CaptureMode} {captured : List Value} {config : Config} {v : Value}
    (ran : (makeFunction entry paramCount needsReceiver mode captured).perform config h = (v, h')) :
    ∃ h₁ held, h.Spares h₁ ∧ List.Forall₂ (IsCaptureOf h h₁ mode) captured held ∧
      h₁.alloc (.ofPayload (.function ⟨entry, paramCount, needsReceiver, mode, held, none⟩)) =
        (v, h') := by
  obtain ⟨spares, captures⟩ := captureOf_mapM_spec mode captured config h
  exact ⟨_, _, spares, captures, ran⟩

theorem bindReceiver_eq {function : Value} {c : Closure} (is : h.closure? function = some c)
    (free : c.receiver = none) (receiver : Value) (config : Config) :
    (bindReceiver function receiver).perform config h =
      h.alloc (.ofPayload (.function (c.boundTo function receiver))) := by
  rw [bindReceiver, HeapM.bind_payloadOf, ← Heap.closure?, is]
  dsimp only
  rw [free]
  rfl

/-- What has a receiver, or is no function, is answered as it is. -/
theorem bindReceiver_eq_self {function : Value}
    (kept : ∀ c, h.closure? function = some c → c.receiver.isSome = true) (receiver : Value)
    (config : Config) : (bindReceiver function receiver).perform config h = (function, h) := by
  rw [bindReceiver, HeapM.bind_payloadOf, ← Heap.closure?]
  cases is : h.closure? function with
  | none => rfl
  | some c => dsimp only; rw [if_pos (kept c is)]; rfl

theorem bindSelfCapture_eq {function : Value} {slot : Nat} {config : Config} {answer : Bool}
    (ran : (bindSelfCapture function slot).perform config h = (answer, h')) :
    answer = false ∧ h' = h ∨
      answer = true ∧ ∃ c, h.closure? function = some c ∧ slot < c.captured.length ∧
        h' = h.write function (.function (c.withSelf function slot)) := by
  rw [bindSelfCapture, HeapM.bind_payloadOf, ← Heap.closure?] at ran
  cases is : h.closure? function with
  | none =>
    rw [is] at ran
    cases ran
    exact .inl ⟨rfl, rfl⟩
  | some c =>
    rw [is] at ran
    dsimp only at ran
    split at ran
    · next lt =>
      cases ran
      exact .inr ⟨rfl, c, rfl, lt, rfl⟩
    · cases ran
      exact .inl ⟨rfl, rfl⟩

theorem writeBox_eq {box content : Value} {config : Config} {answer : Bool}
    (ran : (writeBox box content).perform config h = (answer, h')) :
    answer = false ∧ h' = h ∨
      answer = true ∧ (h.boxed? box).isSome = true ∧ h' = h.write box (.box content) := by
  rw [writeBox, HeapM.bind_payloadOf] at ran
  split at ran
  · next is =>
    cases ran
    exact .inr ⟨rfl, by rw [h.isSome_boxed?]; exact is, rfl⟩
  · cases ran
    exact .inl ⟨rfl, rfl⟩

end Value

/-! ## Steps -/

namespace History

/-- What happens to functions and boxes. -/
inductive Event where
  /-- A function is made. -/
  | made (function : Value) (c : Closure)
  /-- A function without a receiver is bound to one, which makes a copy of it. -/
  | bound (source copy receiver : Value)
  /-- A capture is made the function itself. -/
  | selfBound (function : Value) (slot : Nat)
  | wrote (box content : Value)

/-- A step of a program, with the events that it adds to the history. -/
inductive Transition (h h' : Heap) : List Event → Prop
  | make {config : Config} {entry : EntryPoint} {paramCount : Nat} {needsReceiver : Bool}
    {mode : CaptureMode} {captured : List Value} {v : Value} {c : Closure}
    (ran : (Value.makeFunction entry paramCount needsReceiver mode captured).perform config h =
      (v, h'))
    (is : h'.closure? v = some c) : Transition h h' [.made v c]
  | bind {config : Config} {source receiver copy : Value} {c : Closure}
    (is : h.closure? source = some c) (free : c.receiver = none)
    (ran : (Value.bindReceiver source receiver).perform config h = (copy, h')) :
    Transition h h' [.bound source copy receiver]
  | bindSelf {config : Config} {function : Value} {slot : Nat}
    (ran : (Value.bindSelfCapture function slot).perform config h = (true, h')) :
    Transition h h' [.selfBound function slot]
  | write {config : Config} {box content : Value}
    (ran : (Value.writeBox box content).perform config h = (true, h')) :
    Transition h h' [.wrote box content]
  /-- Anything that makes no function and changes no function and no box. -/
  | other (spares : h.Spares h') : Transition h h' []

/-- Any number of steps, with the history of their events, the latest one first. -/
inductive Evolves (h : Heap) : List Event → Heap → Prop
  | start : Evolves h [] h
  | step {log events : List Event} {h₁ h₂ : Heap} (before : Evolves h log h₁)
    (next : Transition h₁ h₂ events) : Evolves h (events ++ log) h₂

/-- The later heap comes from the earlier one by steps. -/
def Leads (h h' : Heap) : Prop := ∃ log, Evolves h log h'

theorem Transition.evolves {h h' : Heap} {events : List Event}
    (transition : Transition h h' events) : Evolves h events h' := by
  rw [← List.append_nil events]
  exact .step .start transition

theorem Evolves.trans {h h' h'' : Heap} {log log' : List Event} (before : Evolves h log h')
    (after : Evolves h' log' h'') : Evolves h (log' ++ log) h'' := by
  induction after with
  | start => exact before
  | step _ next ih =>
    rw [List.append_assoc]
    exact .step ih next

theorem Leads.refl (h : Heap) : Leads h h := ⟨[], .start⟩

theorem Leads.trans {h h' h'' : Heap} (before : Leads h h') (after : Leads h' h'') : Leads h h'' :=
  let ⟨_, steps⟩ := before
  let ⟨_, steps'⟩ := after
  ⟨_, steps.trans steps'⟩

theorem Transition.leads {h h' : Heap} {events : List Event} (transition : Transition h h' events) :
    Leads h h' := ⟨_, transition.evolves⟩

theorem leads_of_spares {h h' : Heap} (spares : h.Spares h') : Leads h h' :=
  (Transition.other spares).leads

/-! ## How steps change functions and boxes -/

/-- How a step changes the functions and the boxes of a heap. -/
inductive Change (h h' : Heap) : List Event → Prop
  | made {v : Value} {c : Closure} (new : h.closure? v = none)
    (functions : h'.closure? = Function.update h.closure? v (some c))
    (boxes : ∀ {b content}, h.boxed? b = some content → h'.boxed? b = some content)
    (free : c.receiver = none)
    (strong : ∀ k ∈ c.captured, ∃ w, k = .strong w ∧
      (c.mode = .byReference → (h'.boxed? w).isSome = true)) : Change h h' [.made v c]
  | bound {source copy receiver : Value} {c : Closure} (is : h.closure? source = some c)
    (free : c.receiver = none) (new : h.closure? copy = none)
    (functions : h'.closure? = Function.update h.closure? copy (some (c.boundTo source receiver)))
    (boxes : ∀ {b content}, h.boxed? b = some content → h'.boxed? b = some content) :
    Change h h' [.bound source copy receiver]
  | selfBound {function : Value} {slot : Nat} {c : Closure} (is : h.closure? function = some c)
    (lt : slot < c.captured.length)
    (functions : h'.closure? =
      Function.update h.closure? function (some (c.withSelf function slot)))
    (boxes : h'.boxed? = h.boxed?) : Change h h' [.selfBound function slot]
  | wrote {box content : Value} (is : (h.boxed? box).isSome = true)
    (functions : h'.closure? = h.closure?)
    (boxes : h'.boxed? = Function.update h.boxed? box (some content)) :
    Change h h' [.wrote box content]
  | other (spares : h.Spares h') : Change h h' []

theorem Transition.change {h h' : Heap} {events : List Event}
    (transition : Transition h h' events) : Change h h' events := by
  cases transition with
  | @make _ entry paramCount needsReceiver mode captured v c ran is =>
    obtain ⟨h₁, held, spares, captures, alloc⟩ := Value.makeFunction_eq ran
    obtain ⟨rfl, rfl⟩ := Prod.ext_iff.mp alloc
    have new := h₁.closure?_new (.ofPayload (.function
      ⟨entry, paramCount, needsReceiver, mode, held, none⟩))
    have functions := h₁.closure?_alloc_function
      ⟨entry, paramCount, needsReceiver, mode, held, none⟩
    rw [functions, Function.update_self, Option.some.injEq] at is
    subst is
    rw [spares.functions] at new functions
    refine .made new functions (fun is => h₁.boxed?_alloc _ (spares.boxes is)) rfl fun k mem => ?_
    obtain ⟨u, _, w, strong, boxed, _⟩ := exists_of_forall₂ captures.flip mem
    refine ⟨w, strong, fun reference => ?_⟩
    obtain ⟨content, is⟩ := Option.isSome_iff_exists.mp (boxed reference)
    rw [h₁.boxed?_alloc _ is]
    rfl
  | @bind _ source receiver copy c is free ran =>
    rw [Value.bindReceiver_eq is free] at ran
    obtain ⟨rfl, rfl⟩ := Prod.ext_iff.mp ran
    exact .bound is free (h.closure?_new _) (h.closure?_alloc_function _) (h.boxed?_alloc _)
  | @bindSelf _ function slot ran =>
    obtain ⟨⟨⟩, _⟩ | ⟨_, c, is, lt, rfl⟩ := Value.bindSelfCapture_eq ran
    have held := Heap.holds_of_payload (Heap.payload_of_closure? is) (.inl rfl)
    refine .selfBound is lt (Heap.closure?_write _ held) ?_
    rw [Heap.boxed?_write _ held]
    refine Function.update_eq_self_iff.mpr ?_
    rw [Heap.boxed?, Heap.payload_of_closure? is]
    rfl
  | @write _ box content ran =>
    obtain ⟨⟨⟩, _⟩ | ⟨_, is, rfl⟩ := Value.writeBox_eq ran
    obtain ⟨previous, payload⟩ := Option.isSome_iff_exists.mp is
    have held := Heap.holds_of_payload (Heap.payload_of_boxed? payload) (.inr rfl)
    refine .wrote is ?_ (Heap.boxed?_write _ held)
    rw [Heap.closure?_write _ held]
    refine Function.update_eq_self_iff.mpr ?_
    rw [Heap.closure?, Heap.payload_of_boxed? payload]
    rfl
  | other spares => exact .other spares

end History

end ValueMachine
