import ValueMachine.Proofs.Machine.Preserving

/-!
# Arrays of new values

Several operations make one value after the other and then an array of them. The values that are
made first are not changed by making the others.

Results:
* `HeapM.Yields.mapM`, `HeapM.makes_mapM`: what is made one after the other;
* `HeapM.makesArray_mapM`: the array of what is made.
-/

namespace ValueMachine

variable {α : Type} {config : Config} {h : Heap}

/-! ## One value after the other -/

/-- The computation answers a value with the given payload, and leaves every cell as it is. -/
def HeapM.Yields (x : HeapM Value) (p : Payload) : Prop :=
  ∀ config (h : Heap), h.Grows (x.perform config h).2 ∧
    (x.perform config h).2.payload (x.perform config h).1 = p

theorem HeapM.yields_ofPayload (p : Payload) : Yields (Value.ofPayload p) p := fun _ h =>
  ⟨h.grows_alloc _, congrArg Cell.payload (h.cell_alloc_self (.ofPayload p))⟩

theorem HeapM.perform_mapM_cons {β : Type} (f : α → HeapM β) (a : α) (l : List α) (config : Config)
    (h : Heap) : ((a :: l).mapM f).perform config h =
      (((f a).perform config h).1 :: ((l.mapM f).perform config ((f a).perform config h).2).1,
        ((l.mapM f).perform config ((f a).perform config h).2).2) := by
  rw [List.mapM_cons]
  rfl

/-- Values with payloads that are made one after the other have them in the end. -/
theorem HeapM.Yields.mapM {f : α → HeapM Value} {p : α → Payload} (yields : ∀ a, (f a).Yields (p a))
    (some : ∀ a, p a ≠ .undefined) (l : List α) (config : Config) (h : Heap) :
    h.Grows ((l.mapM f).perform config h).2 ∧
      ((l.mapM f).perform config h).1.map ((l.mapM f).perform config h).2.payload = l.map p := by
  induction l generalizing h with
  | nil => exact ⟨.refl h, rfl⟩
  | cons a l ih =>
    obtain ⟨grows, payload⟩ := yields a config h
    obtain ⟨grows', payloads⟩ := ih ((f a).perform config h).2
    have kept := grows'.payload_eq (by rw [payload]; exact some a)
    rw [perform_mapM_cons]
    refine ⟨grows.trans grows', ?_⟩
    rw [List.map_cons, List.map_cons, payloads, kept, payload]

/-- Values that are made one after the other are new. -/
theorem HeapM.makes_mapM {f : α → HeapM Value} (each : ∀ a, (f a).Creates) (l : List α)
    (config : Config) (h : Heap) :
    h.Grows ((l.mapM f).perform config h).2 ∧
      ∀ v ∈ ((l.mapM f).perform config h).1, h.Makes ((l.mapM f).perform config h).2 v := by
  induction l generalizing h with
  | nil => exact ⟨.refl h, nofun⟩
  | cons a l ih =>
    obtain ⟨adds, makes⟩ := each a config h
    obtain ⟨grows, all⟩ := ih ((f a).perform config h).2
    rw [perform_mapM_cons]
    exact ⟨adds.grows.trans grows, List.forall_mem_cons.mpr
      ⟨makes.mono grows, fun v mem => (all v mem).of_grows adds.grows⟩⟩

/-- Computations on the heap that do not fail are run one after the other as they are alone. -/
theorem Attempt.perform_mapM_lift {β : Type} (f : α → HeapM β) (l : List α) (config : Config)
    (h : Heap) : HeapM.perform (l.mapM fun a => (liftM (f a) : Attempt β)).run config h =
      (.ok ((l.mapM f).perform config h).1, ((l.mapM f).perform config h).2) := by
  induction l generalizing h with
  | nil => rfl
  | cons a l ih =>
    have first : HeapM.perform (liftM (f a) : Attempt β).run config h =
      (.ok ((f a).perform config h).1, ((f a).perform config h).2) := rfl
    rw [List.mapM_cons, Attempt.bind_ok first, Attempt.bind_ok (ih _), List.mapM_cons]
    rfl

/-! ## Arrays -/

/-- The handle is one of a new array of values with the given payloads, and no cell has changed. -/
def Heap.MakesArray (h h' : Heap) (w : Value) (ps : List Payload) : Prop :=
  h.Grows h' ∧ h.holds w = false ∧
    ∃ vs : List Value, h'.payload w = .array vs.toArray ∧ vs.map h'.payload = ps

/-- An array of values that exist. -/
theorem Heap.Grows.makesArray {h' : Heap} (grows : h.Grows h') {vs : List Value} {ps : List Payload}
    (payloads : vs.map h'.payload = ps) (some : .undefined ∉ ps) :
    h.MakesArray (h'.alloc (.ofPayload (.array vs.toArray))).2
      (h'.alloc (.ofPayload (.array vs.toArray))).1 ps := by
  refine ⟨grows.trans (h'.grows_alloc _), decide_eq_false (Nat.not_lt.mpr grows.size_le), vs,
    congrArg Cell.payload (h'.cell_alloc_self _), ?_⟩
  rw [← payloads] at some ⊢
  refine List.map_congr_left fun v mem => (h'.grows_alloc _).payload_eq fun none => some ?_
  exact none ▸ List.mem_map_of_mem mem

/-- An array of values that have been made one after the other. -/
theorem HeapM.makesArray_mapM {f : α → HeapM Value} {p : α → Payload}
    (yields : ∀ a, (f a).Yields (p a)) (some : ∀ a, p a ≠ .undefined) (l : List α) (config : Config)
    (h : Heap) : h.MakesArray ((l.mapM f >>= Value.ofList).perform config h).2
      ((l.mapM f >>= Value.ofList).perform config h).1 (l.map p) := by
  obtain ⟨grows, payloads⟩ := HeapM.Yields.mapM yields some l config h
  refine grows.makesArray payloads fun mem => ?_
  obtain ⟨a, -, eq⟩ := List.mem_map.mp mem
  exact some a eq

end ValueMachine
