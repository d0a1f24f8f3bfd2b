import ValueMachine.Proofs.Value.Copying
import ValueMachine.Proofs.Value.NewValues
import ValueMachine.Value.Functions
import ValueMachine.Value.Indexing

/-!
# Operations that hand a value back

Some operations answer an element, a field, or an argument itself. When they do, they do nothing
else; otherwise they leave every cell as it is and answer a new value. What is handed back depends
on the heap at the start alone.

Results:
* `HeapM.Returns`, `Attempt.Returns` and the rules for them;
* `returns_lookup`, `returns_readField`, `returns_charAt`: elements and fields;
* `returns_bound`: methods;
* `returns_shallowClone`, `returns_spreadObject`, `returns_deepClone`: copies;
* `returns_toNum`: conversions.
-/

namespace ValueMachine

/-! ## Handing back -/

/-- The computation hands the given value back and does nothing else, or, if none is given, leaves
every cell as it is and answers a new value. -/
def HeapM.Returns (x : HeapM Value) (given : Option Value) (config : Config) (h : Heap) : Prop :=
  match given with
  | some w => x.perform config h = (w, h)
  | none => h.Adds (x.perform config h).2 ∧
      h.Makes (x.perform config h).2 (x.perform config h).1

/-- The computation succeeds with the given value and does nothing else, or, if none is given,
leaves every cell as it is and answers a new value. -/
def Attempt.Returns (x : Attempt Value) (given : Option Value) (config : Config) (h : Heap) :
    Prop :=
  match given with
  | some w => HeapM.perform x.run config h = (.ok w, h)
  | none => h.Adds (HeapM.perform x.run config h).2 ∧
      h.Makes (HeapM.perform x.run config h).2 (settled (HeapM.perform x.run config h).1)

namespace Attempt

variable {config : Config} {h : Heap}

theorem Creates.returns {x : Attempt Value} (creates : Creates x) : Returns x none config h :=
  creates config h

theorem returns_pure (v : Value) : Returns (pure v) (some v) config h := rfl

/-- What is read first is read off the heap at the start. -/
theorem returns_get {f : Heap → Attempt Value} {given : Option Value} :
    Returns (get >>= f) given config h ↔ Returns (f h) given config h := Iff.rfl

theorem returns_payloadOf {v : Value} {f : Payload → Attempt Value} {given : Option Value} :
    Returns (payloadOf v >>= f) given config h ↔ Returns (f (h.payload v)) given config h := Iff.rfl

/-- A failure may be replaced by another new value. -/
theorem Returns.caught {x : Attempt Value} {given : Option Value}
    (returns : Returns x given config h) {v : Value} (constant : ∀ h h', Heap.Makes h h' v) :
    Returns (tryCatch x fun _ => pure v) given config h := by
  have ok {a : Value} {h' : Heap} (run : HeapM.perform x.run config h = (.ok a, h')) :
      HeapM.perform (tryCatch x fun _ => pure v).run config h = (.ok a, h') := by
    unfold HeapM.perform at run ⊢
    rw [ExceptT.run_tryCatch, ReaderT.run_bind, StateT.run_bind, run]
    rfl
  have error {failure : Failure} {h' : Heap}
      (run : HeapM.perform x.run config h = (.error failure, h')) :
      HeapM.perform (tryCatch x fun _ => pure v).run config h = (.ok v, h') := by
    unfold HeapM.perform at run ⊢
    rw [ExceptT.run_tryCatch, ReaderT.run_bind, StateT.run_bind, run]
    rfl
  unfold Returns at returns ⊢
  cases given with
  | some w => exact ok returns
  | none =>
    generalize run : HeapM.perform x.run config h = outcome at returns
    obtain ⟨failure | a, h'⟩ := outcome
    · rw [error run]
      exact ⟨returns.1, constant _ _⟩
    · rw [ok run]
      exact returns

theorem returns_fail (fault : Fault) {fallback : Value}
    (constant : ∀ h h', Heap.Makes h h' fallback) : Returns (fail fault fallback) none config h :=
  (creates_fail fault constant).returns

theorem returns_lift {x : HeapM Value} {given : Option Value}
    (returns : x.Returns given config h) : Returns (liftM x) given config h := by
  have run : HeapM.perform (liftM x : Attempt Value).run config h =
    (.ok (x.perform config h).1, (x.perform config h).2) := rfl
  cases given with
  | some w =>
    show HeapM.perform (liftM x : Attempt Value).run config h = (.ok w, h)
    rw [run, show x.perform config h = (w, h) from returns]
  | none => exact returns

theorem returns_bind_ok {α : Type} {x : Attempt α} {f : α → Attempt Value} {given : Option Value}
    {a : α} (ok : HeapM.perform x.run config h = (.ok a, h)) :
    Returns (x >>= f) given config h ↔ Returns (f a) given config h := by
  unfold Returns
  rw [bind_ok ok]

/-- Of a new value, what answers a new value or its argument answers a new one. -/
theorem Returns.bind {x : Attempt Value} {f : Value → Attempt Value}
    (made : Returns x none config h)
    (next : ∀ v h₁, Returns (f v) none config h₁ ∨ Returns (f v) (some v) config h₁) :
    Returns (x >>= f) none config h := by
  unfold Returns at made ⊢
  generalize run : HeapM.perform x.run config h = outcome at made
  obtain ⟨failure | v, h₁⟩ := outcome
  · rw [bind_error run]
    exact made
  · rw [bind_ok run]
    obtain ⟨adds, makes⟩ := made
    rcases next v h₁ with made' | back
    · exact ⟨adds.trans made'.1, made'.2.of_grows adds.grows⟩
    · rw [show HeapM.perform (f v).run config h₁ = (.ok v, h₁) from back]
      exact ⟨adds, makes⟩

/-- In every case the cells are kept. -/
theorem Returns.adds {x : Attempt Value} {given : Option Value}
    (returns : Returns x given config h) : h.Adds (HeapM.perform x.run config h).2 := by
  cases given with
  | some w =>
    rw [show HeapM.perform x.run config h = (.ok w, h) from returns]
    exact .refl h
  | none => exact returns.1

/-- What is found is answered; a miss falls back on a constant. -/
theorem returns_found (found : Option Value) (fault : Fault) {fallback : Value}
    (constant : ∀ h h', Heap.Makes h h' fallback) : Returns (match found with
      | some v => pure v
      | none => fail fault fallback) found config h := by
  cases found with
  | some v => exact returns_pure v
  | none => exact returns_fail fault constant

/-- A form that an argument lacks is reported, and a constant is answered. -/
theorem returns_require {α : Type} (form : Payload → Option α) (v : Value)
    (operation requirement : String) {fallback : Value}
    (constant : ∀ h h', Heap.Makes h h' fallback) {f : α → Attempt Value} {given : α → Option Value}
    (next : ∀ a, Returns (f a) (given a) config h) :
    Returns (require form v operation requirement (return fallback) >>= f)
      ((form (h.payload v)).bind given) config h := by
  cases is : form (h.payload v) with
  | some a => exact (returns_bind_ok (perform_require form config is ..)).mpr (next a)
  | none =>
    show Returns _ none config h
    unfold Returns
    rw [bind_error (perform_require_of_none config is ..)]
    exact ⟨.refl h, constant h h⟩

end Attempt

open HeapM (creates_nullOf creates_ofArray creates_ofChars creates_ofExtension creates_ofNat
  creates_ofNumber creates_ofTable creates_ofText)
open Attempt (Returns creates_failNull creates_lift returns_bind_ok returns_fail returns_found
  returns_get returns_lift returns_payloadOf returns_pure returns_require)

/-! ## Elements and fields -/

/-- The element of an array, or the field of an object, at a key. -/
def Heap.elementAt? (h : Heap) (container key : Value) : Option Value :=
  match h.payload container with
  | .array items => (h.position? key).bind (items[·]?)
  | .object fields => (h.payload key).text?.bind fields.get?
  | _ => none

namespace Value

open History

variable {config : Config} {h : Heap}

/-- What an object with a payload of its own shows under a name is made on the spot. -/
theorem returns_virtualProperty? (object : Value) (e : Extension) (name : String) (fault : Fault)
    {fallback : Value} (constant : ∀ h h', Heap.Makes h h' fallback) : Returns (do
      match ← virtualProperty? object e name with
      | some v => return v
      | none => fail fault fallback) none config h := by
  obtain ⟨adds, makes⟩ := createsAny_virtualProperty? object e name config h
  let shown : Attempt (Option Value) := liftM (virtualProperty? object e name)
  have read : HeapM.perform shown.run config h =
    (.ok ((virtualProperty? object e name).perform config h).1,
      ((virtualProperty? object e name).perform config h).2) := rfl
  unfold Returns
  rw [Attempt.bind_ok read]
  cases found : ((virtualProperty? object e name).perform config h).1 with
  | some v => exact ⟨adds, makes v found⟩
  | none => exact ⟨adds, constant _ _⟩

theorem returns_lookup (container key : Value) :
    Returns (lookup container key) (h.elementAt? container key) config h := by
  rw [lookup, returns_get, Heap.elementAt?]
  cases h.payload container with
  | array items => exact returns_found _ _ Heap.makes_null
  | object fields =>
    dsimp only
    cases (h.payload key).text? with
    | some name => exact returns_found _ _ Heap.makes_null
    | none => exact returns_fail _ Heap.makes_null
  | extension e =>
    dsimp only
    split
    · split
      · exact returns_fail _ Heap.makes_null
      · split
        · exact (creates_lift (creates_ofNat _)).returns
        · exact returns_fail _ Heap.makes_null
    · exact returns_virtualProperty? _ e _ _ Heap.makes_null
    · exact returns_fail _ Heap.makes_null
  | null => exact returns_fail _ Heap.makes_null
  | _ => exact returns_fail _ Heap.makes_null

theorem returns_indexSafe (container key : Value) :
    Returns (indexSafe container key) (h.elementAt? container key) config h :=
  (returns_lookup container key).caught Heap.makes_undefined

theorem returns_readField (object : Value) (key : String) :
    Returns (readField object key) ((h.payload object).object?.bind (·.get? key)) config h := by
  rw [readField, returns_payloadOf]
  cases h.payload object with
  | object fields => exact returns_found _ _ Heap.makes_undefined
  | extension e => exact returns_virtualProperty? _ e _ _ Heap.makes_undefined
  | _ => exact returns_fail _ Heap.makes_undefined

theorem returns_getFieldBy (object key : Value) :
    Returns (getFieldBy object key)
      ((h.payload key).text?.bind fun name => (h.payload object).object?.bind (·.get? name))
      config h :=
  returns_require _ _ _ _ Heap.makes_undefined fun name => returns_readField object name

theorem returns_getFieldSafe (object : Value) (key : String) :
    Returns (getFieldSafe object key) ((h.payload object).object?.bind (·.get? key)) config h :=
  (returns_readField object key).caught Heap.makes_undefined

/-! ### Functions -/

/-- What binding to a receiver hands back: all but a function that has no receiver yet. -/
def unbound? (h : Heap) (v : Value) : Option Value :=
  match (h.payload v).closure? with
  | some c => if c.receiver.isSome then some v else none
  | none => some v

theorem returns_bindReceiver (function receiver : Value) :
    (bindReceiver function receiver).Returns (unbound? h function) config h := by
  rw [unbound?, ← Heap.closure?]
  cases is : h.closure? function with
  | some c =>
    by_cases bound : c.receiver.isSome = true
    · dsimp only
      rw [if_pos bound]
      refine bindReceiver_eq_self (fun c' is' => ?_) _ _
      rwa [← Option.some.inj (is.symm.trans is')]
    · have free : c.receiver = none := Option.not_isSome_iff_eq_none.mp bound
      have made := bindReceiver_eq is free receiver config
      dsimp only
      rw [if_neg bound, HeapM.Returns, made]
      exact ⟨⟨h.grows_alloc _, (Transition.bind is free made).leads⟩, h.makes_alloc _⟩
  | none =>
    refine bindReceiver_eq_self (fun c is' => ?_) _ _
    cases is.symm.trans is'

theorem eq_of_unbound? {h : Heap} {v w : Value} (eq : unbound? h v = some w) : w = v := by
  unfold unbound? at eq
  split at eq
  · split at eq <;> cases eq
    rfl
  · cases eq
    rfl

/-- A function that an operation answers is bound; what is handed back otherwise is that. -/
theorem returns_bound {x : Attempt Value} {given : Option Value}
    (returns : Returns x given config h) (receiver : Value) :
    Returns (do bindReceiver (← x) receiver) (given.bind (unbound? h)) config h := by
  cases given with
  | some f =>
    exact (returns_bind_ok returns).mpr (returns_lift (returns_bindReceiver f receiver))
  | none =>
    refine returns.bind fun f h₁ => ?_
    have bound : Returns (liftM (bindReceiver f receiver)) (unbound? h₁ f) config h₁ :=
      returns_lift (returns_bindReceiver f receiver)
    cases unbound : unbound? h₁ f with
    | some w =>
      rw [unbound, eq_of_unbound? unbound] at bound
      exact .inr bound
    | none =>
      rw [unbound] at bound
      exact .inl bound

/-! ### Copies -/

/-- What copying hands back: all but arrays, objects and objects with a payload of their own. -/
def uncopied? (h : Heap) (v : Value) : Option Value :=
  match h.payload v with
  | .array _ => none
  | .object _ => none
  | .extension _ => none
  | _ => some v

theorem returns_shallowClone (v : Value) :
    (shallowClone v).Returns (uncopied? h v) config h := by
  show HeapM.Returns (match h.payload v with
    | .array items => _ | .object fields => _ | .extension e => _ | _ => _) _ config h
  rw [uncopied?]
  cases h.payload v with
  | array items => exact creates_ofArray _ config h
  | object fields => exact creates_ofTable _ config h
  | extension e => exact creates_ofExtension _ config h
  | _ => rfl

/-- What spreading hands back: a target that is no plain object makes way for the source. -/
def unspread? (h : Heap) (target source : Value) : Option Value :=
  if (h.payload target).object?.isSome then none else uncopied? h source

theorem returns_spreadObject (target source : Value) :
    Returns (spreadObject target source) (unspread? h target source) config h := by
  rw [spreadObject, returns_payloadOf, returns_payloadOf, unspread?]
  cases left : (h.payload target).object? with
  | none => exact returns_lift (returns_shallowClone source)
  | some fields =>
    cases (h.payload source).object? with
    | some others =>
      exact (Attempt.preserves_read.creates fun _ => creates_lift (creates_ofTable _)).returns
    | none =>
      have is : uncopied? h target = none := by
        unfold uncopied?
        split <;> first | rfl | simp_all [Payload.object?]
      have copied : Returns (liftM (shallowClone target)) (uncopied? h target) config h :=
        returns_lift (returns_shallowClone target)
      rwa [is] at copied

/-! ### Conversions and elements -/

theorem returns_toNum (v : Value) :
    Returns (toNum v) ((h.payload v).number?.map fun _ => v) config h := by
  rw [toNum, returns_payloadOf]
  cases h.payload v with
  | number x => exact returns_pure v
  | undefined => exact (creates_lift (creates_ofNumber _)).returns
  | null => exact (creates_lift (creates_nullOf _)).returns
  | bool b => exact (creates_lift (creates_ofNumber _)).returns
  | text isStatic content =>
    dsimp only
    split
    · exact (creates_failNull _ _).returns
    · rw [returns_get]
      split
      · exact (creates_lift (creates_ofNumber _)).returns
      · exact (creates_failNull _ _).returns
  | _ => exact (creates_failNull _ _).returns

theorem returns_charAt (target index : Value) :
    Returns (charAt target index) ((h.payload target).array?.bind fun items =>
      (h.payload index).number?.bind fun x => (place? x).bind (items[·]?)) config h := by
  rw [charAt, returns_payloadOf]
  cases (h.payload target).array? with
  | some items =>
    exact returns_require _ _ _ _ Heap.makes_null fun x => returns_found _ _ Heap.makes_null
  | none =>
    refine Attempt.Creates.returns ?_
    refine (preserves_charsArg _ _ _ (creates_nullOf _)).creates fun text =>
      (Attempt.preserves_require _ _ _ _ (creates_nullOf _)).creates fun x => ?_
    split
    · exact creates_lift (creates_ofChars _)
    · exact creates_failNull _ _

/-! ### Deep copies -/

/-- A copying computation leaves every cell as it is. -/
def CopyM.Preserves {α : Type} (x : CopyM α) (config : Config) : Prop :=
  ∀ s : CopyState, s.2.Adds (x.perform config s).2.2

theorem CopyM.preserves_mapM {copy : Value → CopyM Value}
    (each : ∀ v, CopyM.Preserves (copy v) config) (items : List Value) :
    CopyM.Preserves (items.mapM copy) config := by
  induction items with
  | nil => exact fun s => .refl s.2
  | cons item items ih =>
    intro s
    rw [perform_mapM_cons]
    exact (each item s).trans (ih _)

/-- A field makes nothing a function or a box. -/
theorem forms_withField (threshold : Nat) (key : String) (v : Value) (p : Payload) :
    (p.withField threshold key v).closure? = p.closure? ∧
      (p.withField threshold key v).box? = p.box? := by
  cases p <;> exact ⟨rfl, rfl⟩

/-- The fields of a copy are written to a cell that is new to the first heap. -/
theorem adds_forM {copy : Value → CopyM Value} (each : ∀ v, CopyM.Preserves (copy v) config)
    {address : Nat} (le : h.size ≤ address) (fields : List (String × Value)) :
    ∀ s : CopyState, h.Adds s.2 →
      let last := (CopyM.perform (fields.forM fun p => do
        putField (.cell address) p.1 (← copy p.2)) config s).2.2
      h.Adds last ∧ s.2.size ≤ last.size := by
  induction fields with
  | nil => exact fun s adds => ⟨adds, Nat.le_refl _⟩
  | cons p fields ih =>
    intro s adds
    have copied := each p.2 s
    let item := CopyM.perform (copy p.2) config s
    let next : Heap := item.2.2.update (.cell address)
      (Payload.withField config.hashThreshold p.1 item.1)
    have size : next.size = item.2.2.size := Heap.size_update _ _ _
    obtain ⟨closure, box⟩ := forms_withField config.hashThreshold p.1 item.1
      (item.2.2.payload (.cell address))
    obtain ⟨rest, larger⟩ := ih (item.2.1, next) ((adds.trans copied).update le closure box)
    exact ⟨rest, Nat.le_trans copied.grows.size_le (size ▸ larger)⟩

/-- One level of copying hands back what has been copied and what is not copied; it writes only to
the cell that it adds. -/
theorem copyWithin_step {depth : Nat} (deeper : ∀ v, CopyM.Preserves (copyWithin depth v) config)
    (v : Value) (c : Copied) :
    let (w, _, h') := CopyM.perform (copyWithin (depth + 1) v) config (c, h)
    match c.get? v, uncopied? h v with
    | some copy, _ => (w, h') = (copy, h)
    | none, some leaf => (w, h') = (leaf, h)
    | none, none => h.Adds h' ∧ h.Makes h' w := by
  rw [perform_copyWithin, uncopied?]
  cases c.get? v with
  | some copy => rfl
  | none =>
    dsimp only
    cases h.payload v with
    | array items =>
      dsimp only
      have filled := CopyM.preserves_mapM deeper items.toList
        (c.note v (.cell h.size), (h.alloc (.ofPayload (.array #[]))).2)
      have larger := filled.grows.size_le
      rw [Heap.size_alloc] at larger
      have noted := h.payload_alloc_self (.ofPayload (.array #[]))
      have still := (filled.grows.payload_eq (by rw [noted]; nofun)).trans noted
      refine ⟨((h.adds_alloc rfl).trans filled).update (Nat.le_refl _) ?_ ?_, Nat.le_refl _, ?_⟩
      · exact (congrArg Payload.closure? still).symm
      · exact (congrArg Payload.box? still).symm
      · rw [Heap.write, Heap.size_update]
        exact larger
    | object fields =>
      dsimp only
      have filled := adds_forM deeper (Nat.le_refl _) fields.toList
        (c.note v (.cell h.size), (h.alloc (.ofPayload (.object .empty))).2) (h.adds_alloc rfl)
      have larger := filled.2
      rw [Heap.size_alloc] at larger
      exact ⟨filled.1, Nat.le_refl _, larger⟩
    | extension e => exact ⟨h.adds_alloc rfl, h.makes_alloc _⟩
    | _ => rfl

theorem preserves_copyWithin (config : Config) (depth : Nat) :
    ∀ v, CopyM.Preserves (copyWithin depth v) config := by
  induction depth with
  | zero => exact fun v s => .refl s.2
  | succ depth ih =>
    rintro v ⟨c, h⟩
    have step := copyWithin_step (h := h) ih v c
    generalize CopyM.perform (copyWithin (depth + 1) v) config (c, h) = outcome at step ⊢
    obtain ⟨w, c', h'⟩ := outcome
    show h.Adds h'
    generalize c.get? v = copy, uncopied? h v = leaf at step
    cases copy with
    | some copy =>
      have same : (w, h') = (copy, h) := step
      cases same
      exact .refl _
    | none =>
      cases leaf with
      | some leaf =>
        have same : (w, h') = (leaf, h) := step
        cases same
        exact .refl _
      | none => exact step.1

theorem returns_deepClone (v : Value) : (deepClone v).Returns (uncopied? h v) config h := by
  have step := copyWithin_step (h := h) (preserves_copyWithin config h.size) v (.start h)
  rw [Copied.get?_start] at step
  have run : (deepClone v).perform config h =
      ((CopyM.perform (copyWithin (h.size + 1) v) config (.start h, h)).1,
        (CopyM.perform (copyWithin (h.size + 1) v) config (.start h, h)).2.2) := rfl
  unfold HeapM.Returns
  rw [run]
  generalize uncopied? h v = leaf at step ⊢
  cases leaf <;> exact step

end Value

end ValueMachine
