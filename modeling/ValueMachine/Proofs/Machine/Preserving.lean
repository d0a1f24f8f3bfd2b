import ValueMachine.Proofs.Function.Histories

/-!
# Computations that change no cell

Most computations on the heap read it and add cells to it, and leave the cells that they find as
they are. What they answer is then a constant, a new cell, or a handle that they were given. They add
a function at most by binding one, so that they are steps of its history. The rules here follow the
structure of a computation, so that the program of an operation is its proof.

Results:
* `Heap.Adds`: what such computations do to a heap;
* `HeapM.Preserves`, `HeapM.Creates` and the rules for them: computations that do not fail;
* `Attempt.Preserves`, `Attempt.Creates` and the rules for them: those that may fail, and then fall
  back on a new value.
-/

namespace ValueMachine

open History

/-- Cells that were not there before may change. -/
theorem Heap.Grows.update {h h' : Heap} (grows : h.Grows h') {address : Nat} (le : h.size ≤ address)
    (change : Payload → Payload) : h.Grows (h'.update (.cell address) change) := by
  refine ⟨?_, fun {other} lt => ?_, grows.dropped_eq, grows.outside_eq⟩
  · rw [size_update]
    exact grows.size_le
  · have ne : Value.cell other ≠ .cell address := by
      rintro ⟨⟩
      omega
    rw [cell_update_of_ne _ _ ne, grows.frame lt]

/-- The later heap has the cells of the earlier one unchanged, and comes from it by steps. -/
structure Heap.Adds (h h' : Heap) : Prop where
  grows : h.Grows h'
  leads : Leads h h'

namespace Heap.Adds

variable {h h' h'' : Heap}

theorem refl (h : Heap) : h.Adds h := ⟨.refl h, .refl h⟩

theorem trans (adds : h.Adds h') (adds' : h'.Adds h'') : h.Adds h'' :=
  ⟨adds.grows.trans adds'.grows, adds.leads.trans adds'.leads⟩

/-- A cell that was not there before may become anything, as long as it is the same function or box. -/
theorem update (adds : h.Adds h') {address : Nat} (le : h.size ≤ address)
    {change : Payload → Payload}
    (closure : (change (h'.payload (.cell address))).closure? = h'.closure? (.cell address))
    (box : (change (h'.payload (.cell address))).box? = h'.boxed? (.cell address)) :
    h.Adds (h'.update (.cell address) change) :=
  ⟨adds.grows.update le change, adds.leads.trans (leads_of_spares (h'.spares_update _ closure box))⟩

end Heap.Adds

/-- A new cell that holds no function. -/
theorem Heap.adds_alloc (h : Heap) {c : Cell} (none : c.payload.closure? = none) :
    h.Adds (h.alloc c).2 := ⟨h.grows_alloc c, leads_of_spares (h.spares_alloc none)⟩

/-- A value of a later heap that an earlier heap did not have: a constant or a new cell. -/
def Heap.Makes (h h' : Heap) : Value → Prop
  | .cell address => h.size ≤ address ∧ address < h'.size
  | _ => True

theorem Heap.Makes.of_grows {h h' h'' : Heap} {v : Value} (makes : h'.Makes h'' v)
    (grows : h.Grows h') : h.Makes h'' v := by
  cases v with
  | cell address => exact ⟨Nat.le_trans grows.size_le makes.1, makes.2⟩
  | _ => trivial

theorem Heap.Makes.mono {h h' h'' : Heap} {v : Value} (makes : h.Makes h' v)
    (grows : h'.Grows h'') : h.Makes h'' v := by
  cases v with
  | cell address => exact ⟨makes.1, Nat.lt_of_lt_of_le makes.2 grows.size_le⟩
  | _ => trivial

theorem Heap.makes_undefined (h h' : Heap) : h.Makes h' .undefined := trivial

theorem Heap.makes_null (h h' : Heap) : h.Makes h' .null := trivial

theorem Heap.makes_bool (b : Bool) (h h' : Heap) : h.Makes h' (.bool b) := trivial

theorem Heap.makes_alloc (h : Heap) (c : Cell) : h.Makes (h.alloc c).2 (h.alloc c).1 := by
  refine ⟨Nat.le_refl _, ?_⟩
  rw [size_alloc]
  exact Nat.lt_succ_self _

/-! ## Computations that do not fail -/

namespace HeapM

variable {α β : Type}

/-- The computation leaves every cell as it is. -/
def Preserves (x : HeapM α) : Prop := ∀ config (h : Heap), h.Adds (x.perform config h).2

/-- The computation leaves every cell as it is and answers a new value. -/
def Creates (x : HeapM Value) : Prop :=
  ∀ config (h : Heap), h.Adds (x.perform config h).2 ∧
    h.Makes (x.perform config h).2 (x.perform config h).1

theorem Creates.preserves {x : HeapM Value} (creates : x.Creates) : x.Preserves :=
  fun config h => (creates config h).1

theorem preserves_pure (a : α) : Preserves (pure a) := fun _ h => .refl h

theorem preserves_get : Preserves (get : HeapM Heap) := fun _ h => .refl h

theorem preserves_read : Preserves (read : HeapM Config) := fun _ h => .refl h

theorem preserves_observe (f : Heap → α) : Preserves (observe f) := fun _ h => .refl h

theorem Preserves.bind {x : HeapM α} {f : α → HeapM β} (first : x.Preserves)
    (next : ∀ a, (f a).Preserves) : Preserves (x >>= f) :=
  fun config h => (first config h).trans (next _ config _)

theorem Preserves.creates {x : HeapM α} {f : α → HeapM Value} (first : x.Preserves)
    (next : ∀ a, (f a).Creates) : Creates (x >>= f) :=
  fun config h => ⟨(first config h).trans (next _ config _).1,
    (next _ config _).2.of_grows (first config h).grows⟩

theorem preserves_mapM (f : α → HeapM β) (l : List α) (each : ∀ a ∈ l, (f a).Preserves) :
    Preserves (l.mapM f) := by
  induction l with
  | nil => exact preserves_pure _
  | cons a l ih =>
    rw [List.forall_mem_cons] at each
    rw [List.mapM_cons]
    exact each.1.bind fun _ => (ih each.2).bind fun _ => preserves_pure _

/-! ### Making values -/

/-- A constant is new wherever it is answered. -/
theorem creates_pure {v : Value} (constant : ∀ h h', Heap.Makes h h' v) : Creates (pure v) :=
  fun _ h => ⟨.refl h, constant h h⟩

theorem creates_alloc {c : Cell} (none : c.payload.closure? = none) : Creates (Value.alloc c) :=
  fun _ h => ⟨h.adds_alloc none, h.makes_alloc c⟩

theorem creates_ofText (content : String) : Creates (Value.ofText content) := creates_alloc rfl

theorem creates_ofChars (content : List Char) : Creates (Value.ofChars content) := creates_alloc rfl

theorem creates_ofStaticText (content : String) : Creates (Value.ofStaticText content) :=
  creates_alloc rfl

theorem creates_ofArray (items : Array Value) : Creates (Value.ofArray items) := creates_alloc rfl

theorem creates_ofList (items : List Value) : Creates (Value.ofList items) := creates_alloc rfl

theorem creates_ofTable (fields : Table Value) : Creates (Value.ofTable fields) := creates_alloc rfl

theorem creates_ofExtension (e : Extension) : Creates (Value.ofExtension e) := creates_alloc rfl

theorem creates_ofEntries (entries : List (String × Value)) : Creates (Value.ofEntries entries) :=
  preserves_read.creates fun _ => creates_ofTable _

theorem creates_ofNumber (x : Float) : Creates (Value.ofNumber x) := by
  unfold Value.ofNumber
  split
  · next v small =>
    refine creates_pure fun h h' => ?_
    unfold Value.ofSmall? at small
    simp only [Option.ite_none_right_eq_some, Option.some.injEq] at small
    rw [← small.2]
    trivial
  · exact creates_alloc rfl

theorem creates_ofNat (n : Nat) : Creates (Value.ofNat n) := creates_ofNumber _

theorem creates_nullOf (kind : Kind) : Creates (Value.nullOf kind) := by
  unfold Value.nullOf
  split
  · exact creates_pure Heap.makes_null
  · exact creates_alloc rfl

end HeapM

/-! ## Computations that may fail -/

/-- What is answered in the end: the result, or what a failure falls back on. -/
def settled : Except Failure Value → Value
  | .ok v => v
  | .error failure => failure.fallback

namespace Attempt

variable {α β : Type}

/-- The computation leaves every cell as it is; if it fails, it falls back on a new value. -/
def Preserves (x : Attempt α) : Prop :=
  ∀ config (h : Heap), h.Adds (HeapM.perform x.run config h).2 ∧
    ∀ failure, (HeapM.perform x.run config h).1 = .error failure →
      h.Makes (HeapM.perform x.run config h).2 failure.fallback

/-- The computation leaves every cell as it is and answers a new value, also if it fails. -/
def Creates (x : Attempt Value) : Prop :=
  ∀ config (h : Heap), h.Adds (HeapM.perform x.run config h).2 ∧
    h.Makes (HeapM.perform x.run config h).2 (settled (HeapM.perform x.run config h).1)

theorem Creates.preserves {x : Attempt Value} (creates : Creates x) : Preserves x := by
  intro config h
  refine ⟨(creates config h).1, fun failure failed => ?_⟩
  have makes := (creates config h).2
  rwa [failed] at makes

theorem preserves_pure (a : α) : Preserves (pure a) := fun _ h => ⟨.refl h, nofun⟩

theorem preserves_get : Preserves (get : Attempt Heap) := fun _ h => ⟨.refl h, nofun⟩

theorem preserves_read : Preserves (read : Attempt Config) := fun _ h => ⟨.refl h, nofun⟩

theorem preserves_lift {x : HeapM α} (preserves : x.Preserves) : Preserves (liftM x : Attempt α) :=
  fun config h => ⟨preserves config h, nofun⟩

theorem preserves_payloadOf (v : Value) : Preserves (payloadOf v : Attempt Payload) :=
  preserves_lift (HeapM.preserves_observe _)

theorem Preserves.bind {x : Attempt α} {f : α → Attempt β} (first : Preserves x)
    (next : ∀ a, Preserves (f a)) : Preserves (x >>= f) := by
  intro config h
  obtain ⟨adds, falls⟩ := first config h
  generalize run : HeapM.perform x.run config h = outcome at adds falls
  obtain ⟨_ | a, h₁⟩ := outcome
  · rw [bind_error run]
    exact ⟨adds, fun failure eq => by cases eq; exact falls _ rfl⟩
  · rw [bind_ok run]
    obtain ⟨adds', falls'⟩ := next a config h₁
    exact ⟨adds.trans adds', fun failure failed => (falls' failure failed).of_grows adds.grows⟩

theorem Preserves.creates {x : Attempt α} {f : α → Attempt Value} (first : Preserves x)
    (next : ∀ a, Creates (f a)) : Creates (x >>= f) := by
  intro config h
  obtain ⟨adds, falls⟩ := first config h
  generalize run : HeapM.perform x.run config h = outcome at adds falls
  obtain ⟨_ | a, h₁⟩ := outcome
  · rw [bind_error run]
    exact ⟨adds, falls _ rfl⟩
  · rw [bind_ok run]
    obtain ⟨adds', makes⟩ := next a config h₁
    exact ⟨adds.trans adds', makes.of_grows adds.grows⟩

theorem preserves_mapM (f : α → Attempt β) (l : List α) (each : ∀ a ∈ l, Preserves (f a)) :
    Preserves (l.mapM f) := by
  induction l with
  | nil => exact preserves_pure _
  | cons a l ih =>
    rw [List.forall_mem_cons] at each
    rw [List.mapM_cons]
    exact each.1.bind fun _ => (ih each.2).bind fun _ => preserves_pure _

/-! ### Answers -/

theorem creates_pure {v : Value} (constant : ∀ h h', Heap.Makes h h' v) :
    Creates (pure v : Attempt Value) := fun _ h => ⟨.refl h, constant h h⟩

theorem creates_bool (b : Bool) : Creates (pure (.bool b) : Attempt Value) :=
  creates_pure (Heap.makes_bool b)

theorem creates_lift {x : HeapM Value} (creates : x.Creates) : Creates (liftM x : Attempt Value) :=
  creates

theorem preserves_fail (fault : Fault) {fallback : Value}
    (constant : ∀ h h', Heap.Makes h h' fallback) :
    Preserves (fail fault fallback : Attempt α) := by
  intro config h
  refine ⟨.refl h, fun failure failed => ?_⟩
  cases failed
  exact constant h h

theorem creates_fail (fault : Fault) {fallback : Value}
    (constant : ∀ h h', Heap.Makes h h' fallback) : Creates (fail fault fallback) :=
  fun _ h => ⟨.refl h, constant h h⟩

/-- A failure that falls back on what a computation makes. -/
theorem creates_fail_of {x : HeapM Value} (creates : x.Creates) (fault : Fault) :
    Creates (do fail fault (← x)) :=
  creates

theorem creates_failNull (fault : Fault) (kind : Kind) : Creates (failNull fault kind) :=
  creates_fail_of (HeapM.creates_nullOf kind) fault

theorem preserves_require (form : Payload → Option α) (v : Value) (operation requirement : String)
    {fallback : HeapM Value} (creates : fallback.Creates) :
    Preserves (require form v operation requirement fallback) := by
  refine (preserves_payloadOf v).bind fun p => ?_
  split
  · exact preserves_pure _
  · intro config h
    obtain ⟨adds, makes⟩ := creates config h
    refine ⟨adds, fun failure failed => ?_⟩
    cases failed
    exact makes

theorem preserves_textArg (v : Value) (operation label : String) (kind : Kind) :
    Preserves (textArg v operation label kind) :=
  preserves_require _ _ _ _ (HeapM.creates_nullOf kind)

theorem preserves_numberArg (v : Value) (operation label : String) (kind : Kind) :
    Preserves (numberArg v operation label kind) :=
  preserves_require _ _ _ _ (HeapM.creates_nullOf kind)

theorem preserves_arrayArg (v : Value) (operation : String) (kind : Kind) :
    Preserves (arrayArg v operation kind) :=
  preserves_require _ _ _ _ (HeapM.creates_nullOf kind)

end Attempt

end ValueMachine
