import ValueMachine.Proofs.Function.Histories

/-!
# What functions hold

A function holds what it captured. Only a capture that is made the function itself changes, and what
a bound copy holds of its source is what the source held, or the source.

Results:
* `Change.keeps`: what a step leaves of a function;
* `Sound.change`, `Evolves.sound`: what the history says of every function and box.
-/

namespace ValueMachine

/-! ## Functions that are alike -/

/-- Two functions with one body, as many parameters and captures, and one way to hold them. -/
structure Closure.IsAlike (c c' : Closure) : Prop where
  entry : c'.entry = c.entry
  paramCount : c'.paramCount = c.paramCount
  captureCount : c'.captured.length = c.captured.length
  needsReceiver : c'.needsReceiver = c.needsReceiver
  mode : c'.mode = c.mode

namespace Closure.IsAlike

theorem refl (c : Closure) : c.IsAlike c := ⟨rfl, rfl, rfl, rfl, rfl⟩

theorem symm {c c' : Closure} (h : c.IsAlike c') : c'.IsAlike c :=
  ⟨h.entry.symm, h.paramCount.symm, h.captureCount.symm, h.needsReceiver.symm, h.mode.symm⟩

theorem trans {c c' c'' : Closure} (h : c.IsAlike c') (h' : c'.IsAlike c'') : c.IsAlike c'' :=
  ⟨h'.entry.trans h.entry, h'.paramCount.trans h.paramCount, h'.captureCount.trans h.captureCount,
    h'.needsReceiver.trans h.needsReceiver, h'.mode.trans h.mode⟩

theorem boundTo (c : Closure) (source receiver : Value) : c.IsAlike (c.boundTo source receiver) :=
  ⟨rfl, rfl, List.length_map _, rfl, rfl⟩

theorem withSelf (c : Closure) (function : Value) (slot : Nat) :
    c.IsAlike (c.withSelf function slot) :=
  ⟨rfl, rfl, List.length_set, rfl, rfl⟩

end Closure.IsAlike

namespace History

/-! ## What a history says -/

/-- In the history the function captured the value at the slot, when it was made or as the copy of a
function that had captured it, and the slot has not been made the function itself since. -/
inductive Captured : List Event → Value → Nat → Value → Prop
  | made {log : List Event} {v w : Value} {c : Closure} {slot : Nat}
    (held : c.captured[slot]? = some (.strong w)) : Captured (.made v c :: log) v slot w
  | copied {log : List Event} {source copy receiver w : Value} {slot : Nat}
    (captured : Captured log source slot w) :
    Captured (.bound source copy receiver :: log) copy slot w
  | later {log : List Event} {event : Event} {v w : Value} {slot : Nat}
    (captured : Captured log v slot w) (kept : event ≠ .selfBound v slot) :
    Captured (event :: log) v slot w

/-- The content that was written into a box last. -/
def written? : List Event → Value → Option Value
  | [], _ => none
  | .wrote box content :: log, v => if v = box then some content else written? log v
  | _ :: log, v => written? log v

/-- Why a function holds a capture: it was made the function itself, it was captured, or it was the
function itself in the source of a bound copy. -/
def Accounts (log : List Event) (v : Value) (slot : Nat) : Capture → Prop
  | .self owner => owner = v ∧ .selfBound v slot ∈ log
  | .strong w => Captured log v slot w ∨ ∃ r, .bound w v r ∈ log ∧ .selfBound w slot ∈ log

theorem Accounts.later {log : List Event} {v : Value} {slot : Nat} {k : Capture}
    (accounts : Accounts log v slot k) {event : Event} (kept : event ≠ .selfBound v slot) :
    Accounts (event :: log) v slot k := by
  cases k with
  | self owner => exact ⟨accounts.1, List.mem_cons_of_mem _ accounts.2⟩
  | strong w =>
    obtain captured | ⟨r, bound, selfBound⟩ := accounts
    · exact .inl (captured.later kept)
    · exact .inr ⟨r, List.mem_cons_of_mem _ bound, List.mem_cons_of_mem _ selfBound⟩

/-! ## What steps leave of a function -/

variable {h h' : Heap} {log events : List Event}

/-- A step leaves a function as it is, or makes one of its captures the function itself. -/
theorem Change.closure?_eq (change : Change h h' events) {v : Value} {c : Closure}
    (is : h.closure? v = some c) :
    h'.closure? v = some c ∨
      ∃ slot, events = [.selfBound v slot] ∧ h'.closure? v = some (c.withSelf v slot) := by
  have added {u : Value} {c₀ : Closure} (new : h.closure? u = none)
      (functions : h'.closure? = Function.update h.closure? u (some c₀)) :
      h'.closure? v = some c := by
    have ne : v ≠ u := by
      rintro rfl
      rw [new] at is
      cases is
    rw [functions, Function.update_of_ne ne, is]
  cases change with
  | made new functions => exact .inl (added new functions)
  | bound _ _ new functions => exact .inl (added new functions)
  | @selfBound function slot c₀ is₀ _ functions =>
    by_cases eq : v = function
    · subst eq
      obtain rfl : c = c₀ := Option.some.inj (is.symm.trans is₀)
      exact .inr ⟨slot, rfl, by rw [functions, Function.update_self]⟩
    · exact .inl (by rw [functions, Function.update_of_ne eq, is])
  | wrote _ functions => exact .inl (by rw [functions, is])
  | other spares => exact .inl (by rw [spares.functions, is])

/-- A function keeps all but the captures that are made itself. -/
theorem Change.keeps (change : Change h h' events) {v : Value} {c : Closure}
    (is : h.closure? v = some c) :
    ∃ c', h'.closure? v = some c' ∧ c.IsAlike c' ∧ c'.receiver = c.receiver ∧
      ∀ slot, .selfBound v slot ∉ events → c'.captured[slot]? = c.captured[slot]? := by
  obtain is' | ⟨slot₀, rfl, is'⟩ := change.closure?_eq is
  · exact ⟨c, is', .refl c, rfl, fun _ _ => rfl⟩
  · refine ⟨_, is', .withSelf c v slot₀, rfl, fun slot kept => ?_⟩
    have ne : slot₀ ≠ slot := by
      rintro rfl
      exact kept List.mem_cons_self
    exact List.getElem?_set_ne ne

theorem Change.keepsBoxes (change : Change h h' events) {b : Value}
    (is : (h.boxed? b).isSome = true) : (h'.boxed? b).isSome = true := by
  obtain ⟨content, held⟩ := Option.isSome_iff_exists.mp is
  cases change with
  | made _ _ boxes => rw [boxes held]; rfl
  | bound _ _ _ _ boxes => rw [boxes held]; rfl
  | selfBound _ _ _ boxes => rw [boxes]; exact is
  | @wrote box content' _ _ boxes =>
    by_cases eq : b = box
    · rw [boxes, eq, Function.update_self]; rfl
    · rw [boxes, Function.update_of_ne eq]; exact is
  | other spares => exact spares.isSome_boxed? is

/-- A function keeps its receiver and all that makes it alike to others. -/
theorem Evolves.keeps (evolves : Evolves h log h') {v : Value} {c : Closure}
    (is : h.closure? v = some c) :
    ∃ c', h'.closure? v = some c' ∧ c.IsAlike c' ∧ c'.receiver = c.receiver := by
  induction evolves with
  | start => exact ⟨c, is, .refl c, rfl⟩
  | step _ next ih =>
    obtain ⟨c₁, is₁, alike, receiver⟩ := ih
    obtain ⟨c₂, is₂, alike', receiver', _⟩ := next.change.keeps is₁
    exact ⟨c₂, is₂, alike.trans alike', receiver'.trans receiver⟩

/-! ## What the history says holds -/

/-- The function holds the value at the slot, which is a box if variables are captured by
reference. -/
def HoldsAt (h : Heap) (v : Value) (slot : Nat) (w : Value) : Prop :=
  ∃ c, h.closure? v = some c ∧ c.captured[slot]? = some (.strong w) ∧
    (c.mode = .byReference → (h.boxed? w).isSome = true)

/-- The copy is like its source and bound to the receiver, and the source is not bound. -/
def IsBoundCopy (h : Heap) (source copy receiver : Value) : Prop :=
  ∃ c c', h.closure? source = some c ∧ h.closure? copy = some c' ∧ c.IsAlike c' ∧
    c.receiver = none ∧ c'.receiver = some receiver

/-- What the history says of the functions and boxes of a heap. -/
structure Sound (log : List Event) (h : Heap) : Prop where
  accounts {v : Value} {c : Closure} {slot : Nat} {k : Capture} :
    h.closure? v = some c → c.captured[slot]? = some k → Accounts log v slot k
  held {v w : Value} {slot : Nat} : Captured log v slot w → HoldsAt h v slot w
  copy {source copy receiver : Value} : .bound source copy receiver ∈ log →
    IsBoundCopy h source copy receiver
  written {b content : Value} : written? log b = some content → h.boxed? b = some content

theorem sound_empty (outside : Outside) : Sound [] (.empty outside) := by
  have none (v : Value) : (Heap.empty outside).closure? v = none := by cases v <;> rfl
  refine ⟨fun {v c _ _} is => ?_, nofun, nofun, nofun⟩
  rw [none] at is
  cases is

/-- What a function held before a step it holds after it. -/
theorem Sound.held_later (sound : Sound log h) (change : Change h h' events) {v w : Value}
    {slot : Nat} (captured : Captured log v slot w) (kept : .selfBound v slot ∉ events) :
    HoldsAt h' v slot w := by
  obtain ⟨c, is, held, boxed⟩ := sound.held captured
  obtain ⟨c', is', alike, _, captures⟩ := change.keeps is
  refine ⟨c', is', (captures slot kept).trans held, fun reference => ?_⟩
  rw [alike.mode] at reference
  exact change.keepsBoxes (boxed reference)

theorem Sound.held_change (sound : Sound log h) (change : Change h h' events) {v w : Value}
    {slot : Nat} (captured : Captured (events ++ log) v slot w) : HoldsAt h' v slot w := by
  have later : ∀ {v w : Value} {slot : Nat}, Captured log v slot w → .selfBound v slot ∉ events →
      HoldsAt h' v slot w :=
    sound.held_later change
  cases change with
  | @made v₀ c₀ _ functions _ _ strong =>
    cases captured with
    | made held =>
      refine ⟨c₀, by rw [functions, Function.update_self], held, fun reference => ?_⟩
      obtain ⟨w, eq, boxed⟩ := strong _ (List.mem_of_getElem? held)
      cases eq
      exact boxed reference
    | later captured _ => exact later captured (by simp)
  | @bound source copy receiver c is _ _ functions boxes =>
    cases captured with
    | copied captured =>
      obtain ⟨c₁, is₁, held, boxed⟩ := sound.held captured
      obtain rfl : c = c₁ := Option.some.inj (is.symm.trans is₁)
      refine ⟨c.boundTo source receiver, by rw [functions, Function.update_self], ?_, ?_⟩
      · rw [Closure.boundTo, List.getElem?_map, held]
        rfl
      · intro reference
        obtain ⟨content, boxed⟩ := Option.isSome_iff_exists.mp (boxed reference)
        rw [boxes boxed]
        rfl
    | later captured _ => exact later captured (by simp)
  | selfBound =>
    cases captured with
    | later captured kept => exact later captured (by simpa using Ne.symm kept)
  | wrote =>
    cases captured with
    | later captured _ => exact later captured (by simp)
  | other => exact later captured List.not_mem_nil

/-- What a bound copy holds is accounted for by what its source holds. -/
theorem Sound.accounts_copy (sound : Sound log h) {source copy receiver : Value} {c : Closure}
    (is : h.closure? source = some c) (free : c.receiver = none) {slot : Nat} {k : Capture}
    (held : (c.boundTo source receiver).captured[slot]? = some k) :
    Accounts (.bound source copy receiver :: log) copy slot k := by
  rw [Closure.boundTo, List.getElem?_map, Option.map_eq_some_iff] at held
  obtain ⟨k₀, held, rfl⟩ := held
  have accounts := sound.accounts is held
  cases k₀ with
  | self owner =>
    obtain ⟨rfl, selfBound⟩ := accounts
    rw [Value.captureForCopy, if_pos rfl]
    exact .inr ⟨receiver, List.mem_cons_self, List.mem_cons_of_mem _ selfBound⟩
  | strong w =>
    obtain captured | ⟨r, bound, _⟩ := accounts
    · exact .inl captured.copied
    · -- the source of a copy has no receiver, so it is no copy
      obtain ⟨_, c', _, is', _, _, receiver'⟩ := sound.copy bound
      obtain rfl : c = c' := Option.some.inj (is.symm.trans is')
      rw [free] at receiver'
      cases receiver'

theorem Sound.accounts_change (sound : Sound log h) (change : Change h h' events) {v : Value}
    {c : Closure} {slot : Nat} {k : Capture} (is : h'.closure? v = some c)
    (held : c.captured[slot]? = some k) : Accounts (events ++ log) v slot k := by
  cases change with
  | @made v₀ c₀ _ functions _ _ strong =>
    rw [functions] at is
    by_cases eq : v = v₀
    · subst eq
      rw [Function.update_self, Option.some.injEq] at is
      subst is
      obtain ⟨w, rfl, _⟩ := strong k (List.mem_of_getElem? held)
      exact .inl (.made held)
    · rw [Function.update_of_ne eq] at is
      exact (sound.accounts is held).later nofun
  | @bound source copy receiver c₀ is₀ free _ functions _ =>
    rw [functions] at is
    by_cases eq : v = copy
    · subst eq
      rw [Function.update_self, Option.some.injEq] at is
      subst is
      exact sound.accounts_copy is₀ free held
    · rw [Function.update_of_ne eq] at is
      exact (sound.accounts is held).later nofun
  | @selfBound function slot₀ c₀ is₀ lt functions _ =>
    rw [functions] at is
    by_cases eq : v = function
    · subst eq
      rw [Function.update_self, Option.some.injEq] at is
      subst is
      rw [Closure.withSelf] at held
      by_cases here : slot = slot₀
      · subst here
        rw [List.getElem?_set_self lt, Option.some.injEq] at held
        subst held
        exact ⟨rfl, List.mem_cons_self⟩
      · rw [List.getElem?_set_ne (Ne.symm here)] at held
        exact (sound.accounts is₀ held).later (by rintro ⟨⟩; exact here rfl)
    · rw [Function.update_of_ne eq] at is
      exact (sound.accounts is held).later (by rintro ⟨⟩; exact eq rfl)
  | wrote _ functions =>
    rw [functions] at is
    exact (sound.accounts is held).later nofun
  | other spares =>
    rw [spares.functions] at is
    exact sound.accounts is held

theorem Sound.copy_change (sound : Sound log h) (change : Change h h' events)
    {source copy receiver : Value} (mem : .bound source copy receiver ∈ events ++ log) :
    IsBoundCopy h' source copy receiver := by
  rcases List.mem_append.mp mem with now | before
  · cases change with
    | @bound _ _ _ c is free new functions =>
      cases List.mem_singleton.mp now
      have ne : source ≠ copy := by
        rintro rfl
        rw [new] at is
        cases is
      refine ⟨c, _, ?_, ?_, .boundTo c source receiver, free, rfl⟩
      · rw [functions, Function.update_of_ne ne, is]
      · rw [functions, Function.update_self]
    | other => cases now
    | _ => cases List.mem_singleton.mp now
  · obtain ⟨c, c', is, is', alike, free, bound⟩ := sound.copy before
    obtain ⟨c₁, is₁, alike₁, receiver₁, _⟩ := change.keeps is
    obtain ⟨c₂, is₂, alike₂, receiver₂, _⟩ := change.keeps is'
    exact ⟨c₁, c₂, is₁, is₂, alike₁.symm.trans (alike.trans alike₂), receiver₁.trans free,
      receiver₂.trans bound⟩

theorem Sound.written_change (sound : Sound log h) (change : Change h h' events) {b content : Value}
    (written : written? (events ++ log) b = some content) : h'.boxed? b = some content := by
  cases change with
  | made _ _ boxes => exact boxes (sound.written written)
  | bound _ _ _ _ boxes => exact boxes (sound.written written)
  | selfBound _ _ _ boxes => rw [boxes]; exact sound.written written
  | @wrote box content' _ _ boxes =>
    rw [boxes]
    rw [List.singleton_append, written?] at written
    by_cases eq : b = box
    · rw [if_pos eq, Option.some.injEq] at written
      rw [eq, Function.update_self, written]
    · rw [if_neg eq] at written
      rw [Function.update_of_ne eq]
      exact sound.written written
  | other spares => exact spares.boxes (sound.written written)

theorem Sound.change (sound : Sound log h) (change : Change h h' events) :
    Sound (events ++ log) h' where
  accounts := sound.accounts_change change
  held := sound.held_change change
  copy := sound.copy_change change
  written := sound.written_change change

/-- The history of a program says what its functions and boxes hold. -/
theorem Evolves.sound {outside : Outside} (evolves : Evolves (.empty outside) log h) :
    Sound log h := by
  induction evolves with
  | start => exact sound_empty outside
  | step _ next ih => exact ih.change next.change

end History

end ValueMachine
