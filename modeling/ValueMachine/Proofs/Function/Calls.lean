import ValueMachine.Proofs.Function.Bodies
import ValueMachine.Proofs.Function.Captures

/-!
# Functions through calls

A call enters the body of a function with the captures at the end, unless there are too many values.
As calls go on with the history, what the history says holds before and after each, however calls are
nested and wherever they are halted.

Results:
* `handsOver_fullArgs`: what a call does;
* `functions_kept`: what holds of functions and boxes in every state of a program.
-/

namespace ValueMachine

open History

/-! ## Entering a body -/

section Calls

variable {code : Code} {call : Caller} {function : Value} {c : Closure} {args : List Value}
  {m : Machine}

/-- The outcome of a body, with undefined for no value. -/
def bodyOutcome (result : Except Halt (Option Value) × Machine) : Except Halt Value × Machine :=
  (result.1.map fun value => value.getD .undefined, result.2)

/-- The report on a call with too many values, and what it leaves behind. -/
def tooMany (count : Nat) (m : Machine) : Except Halt Value × Machine :=
  let message := "call does not support " ++ toString count ++ " arguments (max "
    ++ toString m.config.maxCallArgs ++ ")"
  (.error (.exit (stopCode m.status)
    (fatalReport m.host.platform message m.host.localTime (m.config.colors false))),
    { m with status := ⟨.error, message⟩ })

/-- A call of the function runs its body once, on all these values, and has the result of the body;
with more values than the limit it ends the program instead, whatever the body is. -/
def HandsOver (m : Machine) (function : Value) (entry : EntryPoint) (args full : List Value) : Prop :=
  ∀ (code : Code) (depth : Nat), (callWithin code (depth + 1) function args).run.run m =
    if full.length ≤ m.config.maxCallArgs then
      bodyOutcome ((code entry (callWithin code depth) full).run.run m)
    else tooMany full.length m

theorem enter_eq : (enter code call function c args).run.run m =
    let full := c.fullArgs (m.heap.isAlive function) args
    if full.length ≤ m.config.maxCallArgs then
      bodyOutcome ((code c.entry call full).run.run m)
    else tooMany full.length m := by
  have got : (get : Run Machine).run.run m = (.ok m, m) := rfl
  rw [enter, Run.bind_ok got]
  dsimp only
  by_cases within : (c.fullArgs (m.heap.isAlive function) args).length ≤ m.config.maxCallArgs
  · rw [if_pos within, if_neg (Nat.not_lt.mpr within), ExceptT.run_bind, StateT.run_bind,
      bodyOutcome]
    rcases (code c.entry call (c.fullArgs (m.heap.isAlive function) args)).run.run m with
      ⟨_ | value, m'⟩ <;> rfl
  · rw [if_neg within, if_pos (Nat.not_le.mp within)]
    rfl

theorem handsOver_fullArgs (is : m.heap.closure? function = some c) (args : List Value) :
    HandsOver m function c.entry args (c.fullArgs (m.heap.isAlive function) args) := by
  intro code depth
  rw [callWithin, Run.bind_payloadOf, ← Heap.closure?, is]
  exact enter_eq

/-- A call of anything else runs nothing. -/
theorem callWithin_other {depth : Nat} (is : m.heap.closure? function = none) :
    (callWithin code (depth + 1) function args).run.run m =
      (.ok .undefined, { m with status := Fault.notCallable.status }) := by
  rw [callWithin, Run.bind_payloadOf, ← Heap.closure?, is]
  rfl

end Calls

/-- The captures are the last values that a body is called with. -/
theorem getElem?_fullArgs {c : Closure} {slot : Nat} {k : Capture}
    (held : c.captured[slot]? = some k) (isAlive : Value → Bool) (args : List Value) :
    (c.fullArgs isAlive args)[(c.fullArgs isAlive args).length - c.captured.length + slot]? =
      some (k.load isAlive) := by
  rw [Closure.fullArgs, List.length_append, List.length_map, Nat.add_sub_cancel,
    List.getElem?_append_right (Nat.le_add_right _ _), Nat.add_sub_cancel_left, List.getElem?_map,
    held]
  rfl

/-- Whatever the arguments are, a call of the function hands over the value in place of the capture. -/
def PassesOn (h : Heap) (function : Value) (slot : Nat) (v : Value) : Prop :=
  ∀ (m : Machine) (args : List Value), m.heap = h → ∃ c full, h.payload function = .function c ∧
    HandsOver m function c.entry args full ∧
    full[full.length - c.captured.length + slot]? = some v

/-- What a capture has for one who has the function is handed over in its place. -/
theorem passesOn_of_value? {h : Heap} {function v : Value} {c : Closure} {slot : Nat} {k : Capture}
    (is : h.closure? function = some c) (held : c.captured[slot]? = some k)
    (value : k.value? (h.isAlive function) = some v) :
    h.capture? function slot = some v ∧ PassesOn h function slot v := by
  constructor
  · rw [Heap.capture?, ← Heap.closure?, is, Option.bind_some, Closure.capture?, held]
    exact value
  · rintro m args rfl
    refine ⟨c, _, Heap.payload_of_closure? is, handsOver_fullArgs is args, ?_⟩
    rw [getElem?_fullArgs held, Capture.load, value]
    rfl

/-- One who has a function has the function itself in a capture that it holds weakly. -/
theorem value?_self (h : Heap) (v : Value) : (Capture.self v).value? (h.isAlive v) = some v := by
  rw [Capture.value?, Heap.isAlive, decide_eq_true rfl, Bool.true_or, if_pos rfl]

/-! ## What holds in every state -/

/-- What holds of functions and boxes after the history of a program. -/
structure FunctionsKept (outside : Outside) (log : List Event) (h : Heap) : Prop where
  /-- A self slot leads to the function that has it: one who has the function reads it there, and not
  undefined, and so does its body whenever it is called. -/
  selfSlot {v : Value} {c : Closure} {slot : Nat} : h.payload v = .function c →
    c.isSelfSlot slot = true → c.captured[slot]? = some (.self v) ∧
      h.capture? v slot = some v ∧ v ≠ .undefined ∧ PassesOn h v slot v
  /-- A receiver stays. -/
  receiver {log' : List Event} {h' : Heap} {v r : Value} {c : Closure} : Evolves h log' h' →
    h.payload v = .function c → c.receiver = some r →
    ∃ c', h'.payload v = .function c' ∧ c'.receiver = some r
  /-- What has a receiver is answered as it is when it is bound again. -/
  rebinding {v r : Value} {c : Closure} : h.payload v = .function c → c.receiver = some r →
    ∀ r' config, (Value.bindReceiver v r').perform config h = (v, h)
  /-- A bound copy is like its source. -/
  copy {source copy r : Value} : .bound source copy r ∈ log →
    ∃ c c', h.payload source = .function c ∧ h.payload copy = .function c' ∧ c.IsAlike c' ∧
      c'.receiver = some r
  /-- Under capture by reference, what is held is a box, or is the source that a bound copy holds in
  place of a self slot. -/
  byReference {v w : Value} {c : Closure} {slot : Nat} : h.payload v = .function c →
    c.mode = .byReference → c.captured[slot]? = some (.strong w) →
    (h.payload w).isBox = true ∨ ∃ r, .bound w v r ∈ log ∧ .selfBound w slot ∈ log
  /-- A function that is made holds the boxes that it is given. -/
  capturing {config : Config} {entry : EntryPoint} {paramCount : Nat} {needsReceiver : Bool}
    {mode : CaptureMode} {captured : List Value} {v b : Value} {h' : Heap} {slot : Nat} :
    (Value.makeFunction entry paramCount needsReceiver mode captured).perform config h = (v, h') →
    captured[slot]? = some b → (h.payload b).isBox = true →
    ∃ c, h'.payload v = .function c ∧ c.captured[slot]? = some (.strong b)
  /-- A function passes on what it captured. If that is a box, it has the content that was written
  last, through whichever function. -/
  sharing {v b : Value} {slot : Nat} : Captured log v slot b →
    h.capture? v slot = some b ∧ PassesOn h v slot b ∧
      ∀ content, written? log b = some content → h.unbox b = content
  /-- A call goes on with the history. -/
  calling {code : Code} {m : Machine} : Code.Operates code → m.heap = h →
    ∀ depth function args, ∃ log',
      Evolves h log' ((callWithin code depth function args).run.run m).2.heap ∧
      Evolves (.empty outside) (log' ++ log) ((callWithin code depth function args).run.run m).2.heap

/-- A slot that holds the function itself weakly. -/
theorem exists_of_isSelfSlot {c : Closure} {slot : Nat} (is : c.isSelfSlot slot = true) :
    ∃ owner, c.captured[slot]? = some (.self owner) := by
  rw [Closure.isSelfSlot] at is
  split at is
  · next owner held => exact ⟨owner, held⟩
  · cases is

/-- After any history functions and boxes are as they were left: self slots lead to their functions,
receivers stay, bound copies are like their sources, and functions share the boxes that they
captured. -/
theorem functions_kept {outside : Outside} {log : List Event} {h : Heap}
    (history : Evolves (.empty outside) log h) : FunctionsKept outside log h := by
  have sound := history.sound
  constructor
  case selfSlot =>
    intro v c slot is self
    obtain ⟨owner, held⟩ := exists_of_isSelfSlot self
    have closure := Heap.closure?_of_payload is
    obtain ⟨rfl, _⟩ := sound.accounts closure held
    obtain ⟨read, passes⟩ := passesOn_of_value? closure held (value?_self h owner)
    refine ⟨held, read, ?_, passes⟩
    rintro rfl
    cases is
  case receiver =>
    intro log' h' v r c later is bound
    obtain ⟨c', is', _, same⟩ := later.keeps (Heap.closure?_of_payload is)
    exact ⟨c', Heap.payload_of_closure? is', same.trans bound⟩
  case rebinding =>
    intro v r c is bound r' config
    refine Value.bindReceiver_eq_self (fun c' is' => ?_) r' config
    obtain rfl : c = c' := Option.some.inj ((Heap.closure?_of_payload is).symm.trans is')
    rw [bound]
    rfl
  case copy =>
    intro source copy r mem
    obtain ⟨c, c', is, is', alike, _, bound⟩ := sound.copy mem
    exact ⟨c, c', Heap.payload_of_closure? is, Heap.payload_of_closure? is', alike, bound⟩
  case byReference =>
    intro v w c slot is reference held
    obtain captured | copied := sound.accounts (Heap.closure?_of_payload is) held
    · obtain ⟨c', is', _, boxed⟩ := sound.held captured
      obtain rfl : c = c' := Option.some.inj ((Heap.closure?_of_payload is).symm.trans is')
      rw [← h.isSome_boxed?]
      exact .inl (boxed reference)
    · exact .inr copied
  case capturing =>
    intro config entry paramCount needsReceiver mode captured v b h' slot ran given boxed
    obtain ⟨h₁, held, _, captures, alloc⟩ := Value.makeFunction_eq ran
    obtain ⟨rfl, rfl⟩ := Prod.ext_iff.mp alloc
    obtain ⟨length, each⟩ := List.forall₂_iff_get.mp captures
    obtain ⟨lt, rfl⟩ := List.getElem?_eq_some_iff.mp given
    obtain ⟨w, strong, _, own⟩ := each slot lt (length ▸ lt)
    rw [← h.isSome_boxed?] at boxed
    obtain rfl := own boxed
    exact ⟨_, h₁.payload_alloc_self _, List.getElem?_eq_some_iff.mpr ⟨length ▸ lt, strong⟩⟩
  case sharing =>
    intro v b slot captured
    obtain ⟨c, is, held, _⟩ := sound.held captured
    obtain ⟨read, passes⟩ := passesOn_of_value? is held rfl
    exact ⟨read, passes, fun content written => Heap.unbox_of_boxed? (sound.written written)⟩
  case calling =>
    rintro code m operates rfl depth function args
    obtain ⟨log', steps⟩ := operates_callWithin operates depth function args m
    exact ⟨log', steps, history.trans steps⟩

/-! ## A history -/

/-- Makes a function that calls itself, and binds it to the first argument. -/
def makeRecursor : Body := fun _ args => do
  let f ← Value.makeFunction (.native 1) 1 false .byValue [.undefined]
  let _ ← Value.bindSelfCapture f 0
  return some (← Value.bindReceiver f (args.getD 0 .undefined))

/-- The builtins, and bodies that count in a box, call themselves, and make functions. -/
def workshopCode : Code
  | .native 0 => Routine.bump.body
  | .native 1 => Routine.factorial.body
  | .native _ => makeRecursor
  | entry => Routine.code entry

theorem operates_makeRecursor : Body.Operates makeRecursor := fun _ _ _ =>
  (Run.operates_heap (HeapM.operates_makeFunction _ _ _ _ _)).bind fun _ =>
  (Run.operates_heap (HeapM.operates_bindSelfCapture _ _)).bind fun _ =>
  (Run.operates_heap (HeapM.operates_bindReceiver _ _)).bind fun _ => Run.operates_pure _

theorem operates_workshopCode : workshopCode.Operates := by
  intro entry
  unfold workshopCode
  split
  · exact Routine.operates_body .bump
  · exact Routine.operates_body .factorial
  · exact operates_makeRecursor
  · exact Routine.operates_code entry

def counter : Closure := ⟨.native 0, 0, false, .byReference, [.strong (.cell 0)], none⟩

def boundCounter : Closure := counter.boundTo (.cell 1) .null

/-- A function before it is its own capture. -/
def newRecursor : Closure := ⟨.native 1, 1, false, .byValue, [.strong .undefined], none⟩

def recursor : Closure := newRecursor.withSelf (.cell 3) 0

def boundRecursor : Closure := recursor.boundTo (.cell 3) .null

/-- A box and functions. -/
def workshop (content : Value) (functions : List Closure) : Heap :=
  .ofCells (⟨.number, .counted, .box content⟩ ::
    functions.map fun c => .ofPayload (.function c)).toArray

/-- A counter is made and bound, then a function that calls itself, and the counter is set. -/
def workshopLog : List Event :=
  [.wrote (.cell 0) (.small 11), .bound (.cell 3) (.cell 4) .null, .selfBound (.cell 3) 0,
    .made (.cell 3) newRecursor, .bound (.cell 1) (.cell 2) .null, .made (.cell 1) counter]

theorem evolves_workshop :
    Evolves .empty workshopLog
      ((workshop (.small 11) [counter, boundCounter, recursor, boundRecursor]).drop (.cell 1)) := by
  have made : Transition .empty (workshop (.small 10) [counter]) [.made (.cell 1) counter] :=
    .make (show (Value.makeFunction (.native 0) 0 false .byReference [.small 10]).perform .standard
      .empty = _ from rfl) rfl
  have bound : Transition (workshop (.small 10) [counter])
      (workshop (.small 10) [counter, boundCounter]) [.bound (.cell 1) (.cell 2) .null] :=
    .bind (show _ = some counter from rfl) rfl (show HeapM.perform _ .standard _ = _ from rfl)
  have made' : Transition (workshop (.small 10) [counter, boundCounter])
      (workshop (.small 10) [counter, boundCounter, newRecursor]) [.made (.cell 3) newRecursor] :=
    .make (show (Value.makeFunction (.native 1) 1 false .byValue [.undefined]).perform .standard _ =
      _ from rfl) rfl
  have selfBound : Transition (workshop (.small 10) [counter, boundCounter, newRecursor])
      (workshop (.small 10) [counter, boundCounter, recursor]) [.selfBound (.cell 3) 0] :=
    .bindSelf (show HeapM.perform _ .standard _ = _ from rfl)
  have bound' : Transition (workshop (.small 10) [counter, boundCounter, recursor])
      (workshop (.small 10) [counter, boundCounter, recursor, boundRecursor])
      [.bound (.cell 3) (.cell 4) .null] :=
    .bind (show _ = some recursor from rfl) rfl (show HeapM.perform _ .standard _ = _ from rfl)
  have wrote : Transition (workshop (.small 10) [counter, boundCounter, recursor, boundRecursor])
      (workshop (.small 11) [counter, boundCounter, recursor, boundRecursor])
      [.wrote (.cell 0) (.small 11)] :=
    .write (show HeapM.perform _ .standard _ = _ from rfl)
  have dropped := Transition.other
    ((workshop (.small 11) [counter, boundCounter, recursor, boundRecursor]).spares_drop (.cell 1))
  exact Evolves.start.step made |>.step bound |>.step made' |>.step selfBound |>.step bound'
    |>.step wrote |>.step dropped

/-- The counter itself is gone, its bound copy is not. -/
theorem functions_kept_workshop :
    let h := (workshop (.small 11) [counter, boundCounter, recursor, boundRecursor]).drop (.cell 1)
    Evolves .empty workshopLog h ∧ workshopCode.Operates ∧
      FunctionsKept .standard workshopLog h :=
  ⟨evolves_workshop, operates_workshopCode, functions_kept evolves_workshop⟩

end ValueMachine
