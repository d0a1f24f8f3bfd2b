import ValueMachine.Proofs.Function.Calls

/-!
# What calls deliver

A body gets the receiver if it takes one, then the arguments, then what was captured. What that is
depends on how the function was obtained: it is made, its captures are made the function itself, and
it is bound to receivers, of which the first one stays. A bound copy delivers what its source
delivered.

Results:
* `Obtained.delivers`: what a function holds is what it has to deliver;
* `call_delivers`: what a call does.
-/

namespace ValueMachine

open History

/-! ## Functions and what they have to deliver -/

/-- What a call of a function delivers to the body, besides the arguments. -/
structure Delivery where
  entry : EntryPoint
  isMethod : Bool
  /-- All receivers that the function was bound to, the first one first. -/
  receivers : List Value
  /-- What was captured, in the order of the slots. -/
  slots : List Value

/-- All values that the body gets. -/
def Delivery.values (d : Delivery) (args : List Value) : List Value :=
  (if d.isMethod then d.receivers.head?.toList else []) ++ args ++ d.slots

/-- How many values these are. -/
def Delivery.count (d : Delivery) (args : List Value) : Nat :=
  (if d.isMethod ∧ d.receivers ≠ [] then 1 else 0) + args.length + d.slots.length

/-- What is captured for a variable: the variable itself, which under capture by reference is a box,
or else a box that is made for it. -/
def IsHeldFor (h h' : Heap) (mode : CaptureMode) (v w : Value) : Prop :=
  w = v ∧ (mode = .byReference → (h'.boxed? w).isSome = true) ∨
    mode = .byReference ∧ h.boxed? v = none ∧ h'.boxed? w = some v

/-- The value is a function that was obtained by such operations, with this to deliver. -/
inductive Obtained : Heap → Value → Delivery → Prop
  | made {config : Config} {entry : EntryPoint} {paramCount : Nat} {isMethod : Bool}
    {mode : CaptureMode} {captured slots : List Value} {f : Value} {h h' : Heap} {c : Closure}
    (ran : (Value.makeFunction entry paramCount isMethod mode captured).perform config h = (f, h'))
    (is : h'.closure? f = some c) (holds : c.captured = slots.map .strong) :
    Obtained h' f ⟨entry, isMethod, [], slots⟩
  /-- A capture is made the function itself. -/
  | selfBound {config : Config} {f : Value} {slot : Nat} {h h' : Heap} {d : Delivery}
    (obtained : Obtained h f d)
    (ran : (Value.bindSelfCapture f slot).perform config h = (true, h')) :
    Obtained h' f { d with slots := d.slots.set slot f }
  | bound {config : Config} {f g receiver : Value} {h h' : Heap} {d : Delivery}
    (obtained : Obtained h f d)
    (ran : (Value.bindReceiver f receiver).perform config h = (g, h')) :
    Obtained h' g { d with receivers := d.receivers ++ [receiver] }
  /-- The function is a field of the object. -/
  | method {config : Config} {f g object : Value} {key : String} {h h₁ h' : Heap} {d : Delivery}
    (obtained : Obtained h f d)
    (found : HeapM.perform (Value.getField object key).run config h = (.ok f, h₁))
    (ran : HeapM.perform (Value.getMethod object key).run config h = (.ok g, h')) :
    Obtained h' g { d with receivers := d.receivers ++ [object] }
  /-- The function is an element of the container. -/
  | methodByIndex {config : Config} {f g container key : Value} {h h₁ h' : Heap} {d : Delivery}
    (obtained : Obtained h f d)
    (found : HeapM.perform (Value.index container key).run config h = (.ok f, h₁))
    (ran : HeapM.perform (Value.getMethodByIndex container key).run config h = (.ok g, h')) :
    Obtained h' g { d with receivers := d.receivers ++ [container] }
  /-- Anything may happen meanwhile, but no capture is made the function itself. -/
  | later {f : Value} {log : List Event} {h h' : Heap} {d : Delivery} (obtained : Obtained h f d)
    (steps : Evolves h log h') (kept : ∀ slot, .selfBound f slot ∉ log) : Obtained h' f d

/-- What a capture leads to. -/
def Capture.target : Capture → Value
  | .strong v => v
  | .self owner => owner

/-- The function holds what is to be delivered. What it holds weakly is the function itself. -/
structure Closure.Delivers (c : Closure) (f : Value) (d : Delivery) : Prop where
  entry : c.entry = d.entry
  needsReceiver : c.needsReceiver = d.isMethod
  receiver : c.receiver = d.receivers.head?
  captured : c.captured.map Capture.target = d.slots
  own {owner : Value} : .self owner ∈ c.captured → owner = f

namespace Closure.Delivers

variable {c : Closure} {f : Value} {d : Delivery}

/-- One who has the function gets the captures, whatever is gone. -/
theorem load_eq (delivers : c.Delivers f d) (h : Heap) :
    c.captured.map (·.load (h.isAlive f)) = d.slots := by
  rw [← delivers.captured]
  refine List.map_congr_left fun k mem => ?_
  cases k with
  | strong v => rfl
  | self owner =>
    rw [Capture.load, delivers.own mem, value?_self]
    rfl

theorem fullArgs_eq (delivers : c.Delivers f d) (h : Heap) (args : List Value) :
    c.fullArgs (h.isAlive f) args = d.values args := by
  rw [Closure.fullArgs, Delivery.values, delivers.needsReceiver, delivers.receiver,
    delivers.load_eq h]

theorem withSelf (delivers : c.Delivers f d) (slot : Nat) :
    (c.withSelf f slot).Delivers f { d with slots := d.slots.set slot f } := by
  refine ⟨delivers.entry, delivers.needsReceiver, delivers.receiver, ?_, fun {owner} mem => ?_⟩
  · rw [Closure.withSelf, List.map_set, delivers.captured]
    rfl
  · rcases List.mem_or_eq_of_mem_set mem with mem | eq
    · exact delivers.own mem
    · cases eq
      rfl

/-- A copy leads for each capture to what its source does. -/
theorem target_captureForCopy (source : Value) (k : Capture) :
    (Value.captureForCopy source k).target = k.target := by
  cases k with
  | strong w => rfl
  | self owner =>
    rw [Value.captureForCopy]
    split
    · next eq => exact eq.symm
    · rfl

/-- The first receiver. A copy holds strongly what its source held weakly. -/
theorem boundTo (delivers : c.Delivers f d) (free : c.receiver = none) (g receiver : Value) :
    (c.boundTo f receiver).Delivers g { d with receivers := d.receivers ++ [receiver] } := by
  refine ⟨delivers.entry, delivers.needsReceiver, ?_, ?_, fun {owner} mem => ?_⟩
  · rw [delivers.receiver, List.head?_eq_none_iff] at free
    rw [free]
    rfl
  · rw [Closure.boundTo, List.map_map, ← delivers.captured]
    exact List.map_congr_left fun k _ => target_captureForCopy f k
  · obtain ⟨k, held, copied⟩ := List.mem_map.mp mem
    cases k with
    | strong v => cases copied
    | self owner' =>
      rw [Value.captureForCopy, if_pos (delivers.own held)] at copied
      cases copied

/-- Any further receiver is left out. -/
theorem rebound (delivers : c.Delivers f d) (bound : c.receiver.isSome = true) (receiver : Value) :
    c.Delivers f { d with receivers := d.receivers ++ [receiver] } := by
  refine ⟨delivers.entry, delivers.needsReceiver, ?_, delivers.captured, delivers.own⟩
  rw [delivers.receiver] at bound ⊢
  obtain ⟨first, eq⟩ := Option.isSome_iff_exists.mp bound
  rw [List.head?_append, eq]
  rfl

end Closure.Delivers

/-! ## What functions hold -/

section Steps

variable {config : Config} {h h' : Heap} {f : Value} {c : Closure} {d : Delivery}

/-- Without a step that makes a capture of it the function itself, a function stays as it is. -/
theorem History.Evolves.closure?_eq {log : List Event} (steps : Evolves h log h')
    (kept : ∀ slot, .selfBound f slot ∉ log) (is : h.closure? f = some c) :
    h'.closure? f = some c := by
  induction steps with
  | start => exact is
  | step _ next ih =>
    have before := ih fun slot mem => kept slot (List.mem_append_right _ mem)
    obtain same | ⟨slot, rfl, _⟩ := next.change.closure?_eq before
    · exact same
    · exact absurd (List.mem_append_left _ List.mem_cons_self) (kept slot)

theorem Heap.Grows.closure?_eq (grows : h.Grows h') (is : h.closure? f = some c) :
    h'.closure? f = some c := by
  have payload := Heap.payload_of_closure? is
  have kept : h.payload f ≠ .undefined := by
    rw [payload]
    exact Payload.noConfusion
  exact Heap.closure?_of_payload ((grows.payload_eq kept).trans payload)

theorem delivers_bindReceiver {g receiver : Value} (is : h.closure? f = some c)
    (delivers : c.Delivers f d)
    (ran : (Value.bindReceiver f receiver).perform config h = (g, h')) :
    ∃ c', h'.closure? g = some c' ∧
      c'.Delivers g { d with receivers := d.receivers ++ [receiver] } := by
  by_cases free : c.receiver = none
  · rw [Value.bindReceiver_eq is free] at ran
    obtain ⟨rfl, rfl⟩ := Prod.ext_iff.mp ran
    refine ⟨c.boundTo f receiver, ?_, delivers.boundTo free _ receiver⟩
    rw [h.closure?_alloc_function, Function.update_self]
  · have bound : c.receiver.isSome = true := Option.isSome_iff_ne_none.mpr free
    have own : ∀ c', h.closure? f = some c' → c'.receiver.isSome = true := by
      intro c' is'
      rwa [← Option.some.inj (is.symm.trans is')]
    rw [Value.bindReceiver_eq_self own] at ran
    cases ran
    exact ⟨c, is, delivers.rebound bound receiver⟩

/-- A function that is found is bound. -/
theorem delivers_bound {x : Attempt Value} {given : Option Value} {g receiver : Value} {h₁ : Heap}
    (returns : Attempt.Returns x given config h) (is : h.closure? f = some c)
    (delivers : c.Delivers f d) (found : HeapM.perform x.run config h = (.ok f, h₁))
    (ran : HeapM.perform (do Value.bindReceiver (← x) receiver : Attempt Value).run config h =
      (.ok g, h')) :
    ∃ c', h'.closure? g = some c' ∧
      c'.Delivers g { d with receivers := d.receivers ++ [receiver] } := by
  have grows : h.Grows h₁ := by
    have adds := returns.adds
    rw [found] at adds
    exact adds.grows
  rw [Attempt.bind_ok found] at ran
  have lifted : HeapM.perform (liftM (Value.bindReceiver f receiver) : Attempt Value).run config h₁ =
    (.ok ((Value.bindReceiver f receiver).perform config h₁).1,
      ((Value.bindReceiver f receiver).perform config h₁).2) := rfl
  obtain ⟨answer, rest⟩ := Prod.ext_iff.mp (lifted.symm.trans ran)
  exact delivers_bindReceiver (grows.closure?_eq is) delivers
    (Prod.ext (Except.ok.inj answer) rest)

end Steps

/-- What was obtained is a function that holds what it has to deliver. -/
theorem Obtained.delivers {h : Heap} {f : Value} {d : Delivery} (obtained : Obtained h f d) :
    ∃ c, h.closure? f = some c ∧ c.Delivers f d := by
  induction obtained with
  | @made _ entry paramCount isMethod mode _ slots f _ h' c ran is holds =>
    obtain ⟨h₁, held, _, _, alloc⟩ := Value.makeFunction_eq ran
    obtain ⟨rfl, rfl⟩ := Prod.ext_iff.mp alloc
    rw [h₁.closure?_alloc_function, Function.update_self, Option.some.injEq] at is
    subst is
    obtain rfl : held = slots.map .strong := holds
    refine ⟨⟨entry, paramCount, isMethod, mode, slots.map .strong, none⟩, ?_,
      ⟨rfl, rfl, rfl, ?_, fun {owner} mem => ?_⟩⟩
    · rw [h₁.closure?_alloc_function, Function.update_self]
    · rw [List.map_map]
      exact List.map_id _
    · obtain ⟨_, _, strong⟩ := List.mem_map.mp mem
      cases strong
  | @selfBound _ f slot h h' d _ ran ih =>
    obtain ⟨c, is, delivers⟩ := ih
    obtain ⟨⟨⟩, _⟩ | ⟨_, c', is', _, rfl⟩ := Value.bindSelfCapture_eq ran
    obtain rfl : c = c' := Option.some.inj (is.symm.trans is')
    have held := Heap.holds_of_payload (Heap.payload_of_closure? is) (.inl rfl)
    refine ⟨c.withSelf f slot, ?_, delivers.withSelf slot⟩
    rw [Heap.closure?_write _ held, Function.update_self]
    rfl
  | bound _ ran ih =>
    obtain ⟨c, is, delivers⟩ := ih
    exact delivers_bindReceiver is delivers ran
  | method _ found ran ih =>
    obtain ⟨c, is, delivers⟩ := ih
    exact delivers_bound (Value.returns_readField _ _) is delivers found ran
  | methodByIndex _ found ran ih =>
    obtain ⟨c, is, delivers⟩ := ih
    exact delivers_bound (Value.returns_lookup _ _) is delivers found ran
  | later _ steps kept ih =>
    obtain ⟨c, is, delivers⟩ := ih
    exact ⟨c, steps.closure?_eq kept is, delivers⟩

/-! ## Making functions -/

namespace IsHeldFor

variable {h h₁ h' h'' : Heap} {mode : CaptureMode} {v w : Value}

theorem earlier (held : IsHeldFor h₁ h' mode v w) (spares : h.Spares h₁) :
    IsHeldFor h h' mode v w := by
  refine held.imp_right fun ⟨reference, notBox, boxed⟩ => ⟨reference, ?_, boxed⟩
  rw [Option.eq_none_iff_forall_ne_some]
  intro content is
  rw [spares.boxes is] at notBox
  cases notBox

theorem later (held : IsHeldFor h h' mode v w)
    (boxes : ∀ {b content}, h'.boxed? b = some content → h''.boxed? b = some content) :
    IsHeldFor h h'' mode v w := by
  obtain ⟨rfl, own⟩ | ⟨reference, notBox, boxed⟩ := held
  · refine .inl ⟨rfl, fun reference => ?_⟩
    obtain ⟨content, is⟩ := Option.isSome_iff_exists.mp (own reference)
    rw [boxes is]
    rfl
  · exact .inr ⟨reference, notBox, boxes boxed⟩

end IsHeldFor

theorem exists_captureOf (mode : CaptureMode) (v : Value) (config : Config) (h : Heap) :
    ∃ w, ((Value.captureOf mode v).perform config h).1 = .strong w ∧
      IsHeldFor h ((Value.captureOf mode v).perform config h).2 mode v w := by
  have run : (Value.captureOf mode v).perform config h =
      (if mode = .byReference && !(h.payload v).isBox then do return .strong (← Value.ofBox v)
        else return .strong v : HeapM Capture).perform config h := rfl
  rw [run]
  split
  · next wraps =>
    obtain ⟨reference, notBox⟩ := Bool.and_eq_true_iff.mp wraps
    refine ⟨_, rfl, .inr ⟨of_decide_eq_true reference, ?_, ?_⟩⟩
    · rw [← Option.isNone_iff_eq_none, ← Option.not_isSome, h.isSome_boxed?]
      exact notBox
    · exact congrArg Payload.box? (h.payload_alloc_self _)
  · next keeps =>
    refine ⟨v, rfl, .inl ⟨rfl, fun reference => ?_⟩⟩
    show (h.boxed? v).isSome = true
    rw [h.isSome_boxed?]
    simpa [reference] using keeps

/-- The captures of a function that is made, one for each variable. -/
theorem exists_slots (mode : CaptureMode) (captured : List Value) (config : Config) :
    ∀ h : Heap, ∃ slots,
      ((captured.mapM (Value.captureOf mode)).perform config h).1 = slots.map .strong ∧
      List.Forall₂ (IsHeldFor h ((captured.mapM (Value.captureOf mode)).perform config h).2 mode)
        captured slots := by
  induction captured with
  | nil => exact fun h => ⟨[], rfl, .nil⟩
  | cons v captured ih =>
    intro h
    rw [List.mapM_cons]
    obtain ⟨w, eq, held⟩ := exists_captureOf mode v config h
    obtain ⟨slots, eqs, others⟩ := ih ((Value.captureOf mode v).perform config h).2
    have spares := (Value.captureOf_spec mode v config h).1
    have spares' := (Value.captureOf_mapM_spec mode captured config
      ((Value.captureOf mode v).perform config h).2).1
    exact ⟨w :: slots, congr (congrArg List.cons eq) eqs,
      .cons (held.later spares'.boxes) (others.imp fun _ _ held => held.earlier spares)⟩

/-- A function that is made has its captures to deliver, and no receiver yet. -/
theorem exists_obtained {config : Config} {entry : EntryPoint} {paramCount : Nat} {isMethod : Bool}
    {mode : CaptureMode} {captured : List Value} {f : Value} {h h' : Heap}
    (ran : (Value.makeFunction entry paramCount isMethod mode captured).perform config h =
      (f, h')) :
    ∃ slots, Obtained h' f ⟨entry, isMethod, [], slots⟩ ∧
      List.Forall₂ (IsHeldFor h h' mode) captured slots := by
  obtain ⟨slots, eq, held⟩ := exists_slots mode captured config h
  have alloc : ((captured.mapM (Value.captureOf mode)).perform config h).2.alloc (.ofPayload
      (.function ⟨entry, paramCount, isMethod, mode,
        ((captured.mapM (Value.captureOf mode)).perform config h).1, none⟩)) = (f, h') := ran
  generalize (captured.mapM (Value.captureOf mode)).perform config h = made at eq held alloc
  obtain ⟨rfl, rfl⟩ := Prod.ext_iff.mp alloc
  have is := made.2.closure?_alloc_function ⟨entry, paramCount, isMethod, mode, made.1, none⟩
  refine ⟨slots, .made ran ((congrFun is _).trans (Function.update_self ..)) eq,
    held.imp fun _ _ held => held.later (made.2.boxed?_alloc _)⟩

/-! ## What a call does -/

theorem Delivery.length_values (d : Delivery) (args : List Value) :
    (d.values args).length = d.count args := by
  obtain ⟨entry, isMethod, receivers, slots⟩ := d
  rw [Delivery.values, Delivery.count, List.length_append, List.length_append]
  cases isMethod <;> cases receivers <;> simp

/-- What a container gives for a call is obtained: a function that is found comes bound. -/
theorem Obtained.exists_method {h : Heap} {f : Value} {d : Delivery} (obtained : Obtained h f d)
    {config : Config} {object : Value} {key : String} {h₁ : Heap}
    (found : HeapM.perform (Value.getField object key).run config h = (.ok f, h₁)) :
    ∃ g h', HeapM.perform (Value.getMethod object key).run config h = (.ok g, h') ∧
      Obtained h' g { d with receivers := d.receivers ++ [object] } :=
  have ran := Attempt.bind_ok found fun f => liftM (Value.bindReceiver f object)
  ⟨_, _, ran, .method obtained found ran⟩

theorem Obtained.exists_methodByIndex {h : Heap} {f : Value} {d : Delivery}
    (obtained : Obtained h f d) {config : Config} {container key : Value} {h₁ : Heap}
    (found : HeapM.perform (Value.index container key).run config h = (.ok f, h₁)) :
    ∃ g h', HeapM.perform (Value.getMethodByIndex container key).run config h = (.ok g, h') ∧
      Obtained h' g { d with receivers := d.receivers ++ [container] } :=
  have ran := Attempt.bind_ok found fun f => liftM (Value.bindReceiver f container)
  ⟨_, _, ran, .methodByIndex obtained found ran⟩

/-- A function that is made delivers what it captured, and one that is found in a container comes bound
to it. A call of a function runs its body once, on the receiver, the arguments and the captures, and has
the result of the body; with more values than the limit it ends the program instead, whatever the body
is. A call of anything else runs nothing. -/
theorem call_delivers (code : Code) (depth : Nat) {m : Machine} {f : Value} {d : Delivery}
    (obtained : Obtained m.heap f d) :
    (∀ {config entry paramCount isMethod mode captured g h'},
      (Value.makeFunction entry paramCount isMethod mode captured).perform config m.heap =
        (g, h') →
      ∃ slots, Obtained h' g ⟨entry, isMethod, [], slots⟩ ∧
        List.Forall₂ (IsHeldFor m.heap h' mode) captured slots) ∧
    (∀ {config object key h₁},
      HeapM.perform (Value.getField object key).run config m.heap = (.ok f, h₁) →
      ∃ g h', HeapM.perform (Value.getMethod object key).run config m.heap = (.ok g, h') ∧
        Obtained h' g { d with receivers := d.receivers ++ [object] }) ∧
    (∀ {config container key h₁},
      HeapM.perform (Value.index container key).run config m.heap = (.ok f, h₁) →
      ∃ g h', HeapM.perform (Value.getMethodByIndex container key).run config m.heap = (.ok g, h') ∧
        Obtained h' g { d with receivers := d.receivers ++ [container] }) ∧
    (∀ args, (d.count args ≤ m.config.maxCallArgs →
        (callWithin code (depth + 1) f args).run.run m =
          bodyOutcome ((code d.entry (callWithin code depth) (d.values args)).run.run m)) ∧
      (m.config.maxCallArgs < d.count args →
        (callWithin code (depth + 1) f args).run.run m = tooMany (d.count args) m)) ∧
    ∀ v args, (∀ c, m.heap.payload v ≠ .function c) →
      (callWithin code (depth + 1) v args).run.run m =
        (.ok .undefined, { m with status := ⟨.typeError, "(call) value is not a function"⟩ }) := by
  refine ⟨exists_obtained, obtained.exists_method, obtained.exists_methodByIndex, fun args => ?_,
    fun v args other => ?_⟩
  · obtain ⟨c, is, delivers⟩ := obtained.delivers
    have called := handsOver_fullArgs is args code depth
    rw [delivers.fullArgs_eq, d.length_values, delivers.entry] at called
    rw [called]
    exact ⟨fun within => if_pos within, fun beyond => if_neg (Nat.not_le.mpr beyond)⟩
  · have none : m.heap.closure? v = none := by
      rw [Option.eq_none_iff_forall_ne_some]
      exact fun c is => other c (Heap.payload_of_closure? is)
    exact callWithin_other none

/-- A method that captured itself and a number, an object with the method as its field, and the copy
of the method that the field gives. -/
def bench : Heap :=
  let method : Closure :=
    ⟨.native 0, 1, true, .byValue, [.self (.cell 0), .strong (.small 5)], none⟩
  .ofCells #[.ofPayload (.function method),
    .ofPayload (.object (.ofList 8 [("run", .cell 0)])),
    .ofPayload (.function (method.boundTo (.cell 0) (.cell 1)))]

/-- The copy was bound once more, to null. -/
theorem obtained_bench :
    Obtained bench (.cell 2) ⟨.native 0, true, [.cell 1, .null], [.cell 0, .small 5]⟩ := by
  have made : Obtained _ (.cell 0) ⟨.native 0, true, [], [.undefined, .small 5]⟩ :=
    .made (show (Value.makeFunction (.native 0) 1 true .byValue [.undefined, .small 5]).perform
      .standard .empty = _ from rfl) rfl rfl
  have selfBound : Obtained _ (.cell 0) ⟨.native 0, true, [], [.cell 0, .small 5]⟩ :=
    .selfBound made (show (Value.bindSelfCapture (.cell 0) 0).perform .standard _ = _ from rfl)
  have later := selfBound.later (Transition.other (Heap.spares_alloc _
    (c := .ofPayload (.object (.ofList 8 [("run", .cell 0)]))) rfl)).evolves fun _ => List.not_mem_nil
  have found := later.method
    (show HeapM.perform (Value.getField (.cell 1) "run").run .standard _ = _ from rfl)
    (show HeapM.perform (Value.getMethod (.cell 1) "run").run .standard _ = _ from rfl)
  exact found.bound (show (Value.bindReceiver (.cell 2) .null).perform .standard _ = _ from rfl)

theorem call_delivers_bench :
    let m : Machine := { Machine.start ⟨"linux", "2024-01-01 00:00:00", 0, 0.5⟩ [] with heap := bench }
    Obtained m.heap (.cell 2) ⟨.native 0, true, [.cell 1, .null], [.cell 0, .small 5]⟩ ∧
      (callWithin Routine.code 2 (.cell 2) [.small 7]).run.run m =
        bodyOutcome ((Routine.echo.body (callWithin Routine.code 1)
          [.cell 1, .small 7, .cell 0, .small 5]).run.run m) ∧
      (callWithin Routine.code 2 (.cell 2) (.replicate 14 .null)).run.run m = tooMany 17 m ∧
      (callWithin Routine.code 2 (.cell 1) []).run.run m =
        (.ok .undefined, { m with status := ⟨.typeError, "(call) value is not a function"⟩ }) := by
  intro m
  obtain ⟨-, -, -, calls, others⟩ := call_delivers Routine.code 1 (m := m) obtained_bench
  have object : m.heap.payload (.cell 1) = .object (.ofList 8 [("run", .cell 0)]) := rfl
  have other (c : Closure) : m.heap.payload (.cell 1) ≠ .function c := by
    rw [object]
    exact Payload.noConfusion
  exact ⟨obtained_bench, (calls [.small 7]).1 (by decide), (calls (.replicate 14 .null)).2 (by decide),
    others (.cell 1) [] other⟩

end ValueMachine
