import ValueMachine.Proofs.Value.DeepClone
import ValueMachine.Proofs.Value.JsonRoundTrip
import ValueMachine.Proofs.Value.NewArrays
import ValueMachine.Proofs.Value.Queries

/-!
# What is built inside an answer

Three operations build more than the array or object that they answer: the entries of an object are
pairs, reading JSON makes a whole tree, and a deep copy makes a whole graph. None of these cells was
there before. A deep copy shares with its source what copying hands back, and a pair shares the value
of its entry; nothing else inside an answer is old.

Results:
* `Heap.MakesAll`: all that is reached from a value is new, and stays so;
* `createsAll_ofDocument`, `Value.createsAll_decode`: what is read is new throughout;
* `Value.makes_entries`, `Value.makes_deepClone`: the pairs of entries, and the cells of a copy;
* `Query.makes_of_builds`: what each of the three builds is new.
-/

namespace ValueMachine

open Json (Document)
open Value (ofDocument ofDocuments ofMembers)

/-! ## New throughout -/

namespace Heap

variable {h h' h'' : Heap} {v : Value}

/-- What was made keeps its payload. -/
theorem Makes.payload_eq (makes : h.Makes h' v) (grows : h'.Grows h'') :
    h''.payload v = h'.payload v := by
  cases v with
  | cell address => exact congrArg Cell.payload (grows.frame makes.2)
  | _ => rfl

/-- All that is reached from the value is new. -/
def MakesAll (h h' : Heap) (v : Value) : Prop :=
  ∀ ⦃u⦄, h'.Reaches Payload.elements v u → h.Makes h' u

theorem MakesAll.of_grows (all : h'.MakesAll h'' v) (grows : h.Grows h') : h.MakesAll h'' v :=
  fun _ reached => (all reached).of_grows grows

/-- New cells lead to what they led to before, so that nothing more is reached later. -/
theorem MakesAll.mono (all : h.MakesAll h' v) (grows : h'.Grows h'') : h.MakesAll h'' v := by
  intro u reached
  have before : h'.Reaches Payload.elements v u := by
    induction reached with
    | root => exact .root
    | edge _ mem ih =>
      rw [(all ih).payload_eq grows] at mem
      exact ih.edge mem
  exact (all before).mono grows

/-- Beyond a value come its elements. -/
theorem Reaches.eq_or_exists {edges : Payload → List Value} {root u : Value}
    (reached : h.Reaches edges root u) :
    u = root ∨ ∃ item ∈ edges (h.payload root), h.Reaches edges item u := by
  induction reached with
  | root => exact .inl rfl
  | @edge u v _ mem ih =>
    obtain rfl | ⟨item, mem', reached⟩ := ih
    · exact .inr ⟨v, mem, .root⟩
    · exact .inr ⟨item, mem', reached.edge mem⟩

theorem Makes.all (makes : h.Makes h' v)
    (each : ∀ item ∈ (h'.payload v).elements, h.MakesAll h' item) : h.MakesAll h' v := by
  intro u reached
  obtain rfl | ⟨item, mem, reached'⟩ := reached.eq_or_exists
  · exact makes
  · exact each item mem reached'

/-- A new cell whose elements are new throughout. -/
theorem makesAll_alloc (grows : h.Grows h') {c : Cell}
    (each : ∀ item ∈ c.payload.elements, h.MakesAll h' item) :
    h.MakesAll (h'.alloc c).2 (h'.alloc c).1 := by
  refine ((h'.makes_alloc c).of_grows grows).all fun item mem => ?_
  rw [show (h'.alloc c).2.payload (h'.alloc c).1 = c.payload from h'.payload_alloc_self c] at mem
  exact (each item mem).mono (h'.grows_alloc c)

end Heap

/-! ## Reading JSON -/

/-- The computation leaves every cell as it is, and all that is reached from its answer is new. -/
def HeapM.CreatesAll (x : HeapM Value) : Prop :=
  ∀ config (h : Heap), h.Grows (x.perform config h).2 ∧
    h.MakesAll (x.perform config h).2 (x.perform config h).1

/-- A new value without elements is new throughout. -/
theorem HeapM.Creates.createsAll {x : HeapM Value} (creates : x.Creates)
    (none : ∀ config (h : Heap),
      ((x.perform config h).2.payload (x.perform config h).1).elements = []) : x.CreatesAll := by
  intro config h
  obtain ⟨adds, makes⟩ := creates config h
  refine ⟨adds.grows, makes.all fun item mem => ?_⟩
  rw [none config h] at mem
  cases mem

/-- The values of a list of documents. -/
theorem makesAll_ofDocuments {items : List Document}
    (each : ∀ item ∈ items, (ofDocument item).CreatesAll) (config : Config) : ∀ h : Heap,
    h.Grows ((ofDocuments items).perform config h).2 ∧
      ∀ v ∈ ((ofDocuments items).perform config h).1,
        h.MakesAll ((ofDocuments items).perform config h).2 v := by
  induction items with
  | nil => exact fun h => ⟨.refl h, nofun⟩
  | cons item items ih =>
    intro h
    rw [perform_ofDocuments_cons]
    rw [List.forall_mem_cons] at each
    obtain ⟨grows, all⟩ := each.1 config h
    obtain ⟨grows', others⟩ := ih each.2 ((ofDocument item).perform config h).2
    exact ⟨grows.trans grows', List.forall_mem_cons.mpr
      ⟨all.mono grows', fun v mem => (others v mem).of_grows grows⟩⟩

theorem HeapM.createsAll_nullOf (kind : Kind) : (Value.nullOf kind).CreatesAll := by
  refine (HeapM.creates_nullOf kind).createsAll fun config h => ?_
  unfold Value.nullOf
  split
  · rfl
  · exact congrArg Payload.elements (h.payload_alloc_self ⟨kind, .counted, .null⟩)

theorem createsAll_ofDocument (d : Document) : (ofDocument d).CreatesAll := by
  induction d using Document.induct with
  | null =>
    rw [ofDocument]
    exact (HeapM.creates_pure Heap.makes_null).createsAll fun _ _ => rfl
  | bool b =>
    rw [ofDocument]
    exact (HeapM.creates_pure (Heap.makes_bool b)).createsAll fun _ _ => rfl
  | number x =>
    have number : ofDocument (.number x) = Value.ofNumber x := by rw [ofDocument]
    rw [number]
    refine (HeapM.creates_ofNumber x).createsAll fun config h => ?_
    obtain ⟨-, _, shown, -⟩ := builds_number x config h
    rw [number] at shown
    rw [shown.payload_of_number]
    rfl
  | text content =>
    rw [ofDocument]
    exact (HeapM.creates_ofText content).createsAll fun config h =>
      congrArg Payload.elements (h.payload_alloc_self _)
  | array items ih =>
    intro config h
    obtain ⟨grows, all⟩ := makesAll_ofDocuments ih config h
    rw [ofDocument]
    exact ⟨grows.trans (Heap.grows_alloc _ _), Heap.makesAll_alloc grows all⟩
  | object members ih =>
    intro config h
    obtain ⟨grows, all⟩ := makesAll_ofDocuments (List.forall_mem_map.mpr ih) config h
    have entries := perform_ofMembers members config h
    have step : (ofDocument (.object members)).perform config h =
        (Value.ofEntries ((ofMembers members).perform config h).1).perform config
          ((ofMembers members).perform config h).2 := by
      rw [ofDocument]
      rfl
    rw [step, entries]
    refine ⟨grows.trans (Heap.grows_alloc _ _), Heap.makesAll_alloc grows fun item mem => ?_⟩
    obtain ⟨p, mem', rfl⟩ := List.mem_map.mp mem
    rw [Table.toList_ofList_eq] at mem'
    exact all p.2 (List.of_mem_zip (Listing.ofPairs_subperm _ |>.subset mem')).2

/-! ## Computations that may fail -/

namespace Attempt

variable {α : Type}

/-- The computation leaves every cell as it is, and all that is reached from what is answered in the
end is new. -/
def CreatesAll (x : Attempt Value) : Prop :=
  ∀ config (h : Heap), h.Grows (HeapM.perform x.run config h).2 ∧
    h.MakesAll (HeapM.perform x.run config h).2 (settled (HeapM.perform x.run config h).1)

theorem createsAll_lift {x : HeapM Value} (creates : x.CreatesAll) :
    CreatesAll (liftM x : Attempt Value) := creates

theorem createsAll_failNull (fault : Fault) (kind : Kind) : CreatesAll (failNull fault kind) :=
  HeapM.createsAll_nullOf kind

/-- What is read off the heap or off the settings first changes nothing. -/
theorem createsAll_read {f : Config → Attempt Value} (next : ∀ config, CreatesAll (f config)) :
    CreatesAll (read >>= f) := fun config h => next config config h

theorem createsAll_get {f : Heap → Attempt Value} (next : ∀ h, CreatesAll (f h)) :
    CreatesAll (get >>= f) := fun config h => next h config h

/-- A form that an argument lacks is reported with a typed null. -/
theorem perform_require_nullOf {form : Payload → Option α} (config : Config) {v : Value} {h : Heap}
    (no : form (h.payload v) = none) (operation requirement : String) (kind : Kind) :
    HeapM.perform (require form v operation requirement (Value.nullOf kind)).run config h =
      HeapM.perform (failNull (.argument operation requirement) kind : Attempt α).run config h := by
  rw [require, bind_payloadOf, no]
  rfl

theorem createsAll_require {form : Payload → Option α} {v : Value}
    {operation requirement : String} {kind : Kind} {f : α → Attempt Value}
    (next : ∀ a, CreatesAll (f a)) :
    CreatesAll (require form v operation requirement (Value.nullOf kind) >>= f) := by
  intro config h
  cases is : form (h.payload v) with
  | some a =>
    rw [bind_ok (perform_require form config is ..)]
    exact next a config h
  | none =>
    have failed := perform_require_nullOf config is operation requirement kind
    rw [perform_failNull] at failed
    rw [bind_error failed]
    exact HeapM.createsAll_nullOf kind config h

end Attempt

theorem Value.createsAll_decode (text : Value) : Attempt.CreatesAll (decode text) := by
  refine Attempt.createsAll_require fun content => Attempt.createsAll_read fun config => ?_
  split
  · exact Attempt.createsAll_failNull _ _
  · refine Attempt.createsAll_get fun h => ?_
    split
    · exact Attempt.createsAll_lift (createsAll_ofDocument _)
    · exact Attempt.createsAll_failNull _ _

/-! ## Entries -/

/-- The pair of an entry. -/
def Value.pairOf (p : String × Value) : HeapM Value := do ofList [← ofText p.1, p.2]

theorem Value.creates_pairOf (p : String × Value) : (pairOf p).Creates :=
  (HeapM.creates_ofText _).preserves.creates fun _ => HeapM.creates_ofList _

/-- The pairs of a list of entries are new. -/
theorem Value.makes_entries (object : Value) {config : Config} {h h' : Heap}
    {outcome : Except Failure Value}
    (run : HeapM.perform (entries object).run config h = (outcome, h')) {pair : Value}
    (mem : pair ∈ (h'.payload (settled outcome)).elements) : h.Makes h' pair := by
  have listing : entries object = (do
    let pairs ← (← entriesArg object "entries").mapM fun p => (liftM (pairOf p) : Attempt Value)
    ofList pairs) := rfl
  rw [listing] at run
  cases is : (h.payload object).object? with
  | none =>
    have failed := Attempt.perform_require_nullOf config is "entries" "requires object" .object
    rw [perform_failNull] at failed
    rw [entriesArg, Attempt.bind_error (Attempt.bind_error failed _)] at run
    cases run
    exact (HeapM.createsAll_nullOf .object config h).2 (.edge .root mem)
  | some fields =>
    have listed : HeapM.perform (entriesArg object "entries").run config h =
        (.ok fields.toList, h) := by
      rw [entriesArg, Attempt.bind_ok (perform_require Payload.object? config is ..)]
      rfl
    obtain ⟨grows, makes⟩ := HeapM.makes_mapM creates_pairOf fields.toList config h
    have pairs := Attempt.perform_mapM_lift pairOf fields.toList config h
    generalize (fields.toList.mapM pairOf).perform config h = made at grows makes pairs
    obtain ⟨vs, h₁⟩ := made
    rw [Attempt.bind_ok listed, Attempt.bind_ok pairs] at run
    obtain ⟨rfl, rfl⟩ := Prod.mk.inj run
    let array : Cell := .ofPayload (.array vs.toArray)
    have inside : pair ∈ ((h₁.alloc array).2.payload (h₁.alloc array).1).elements := mem
    rw [h₁.payload_alloc_self array] at inside
    exact (makes pair inside).mono (h₁.grows_alloc array)

/-! ## Deep copies -/

/-- In a finished copy only what copying hands back is not new. -/
theorem Copying.makes {source : Heap} {s : CopyState} (copying : Copying source [] s) {v w : Value}
    (root : Stands source s v w)
    (named : ∀ u, source.Reaches Payload.elements v u → source.names u = true) {part : Value}
    (reached : s.2.Reaches Payload.elements w part) (built : Value.uncopied? s.2 part = none) :
    source.Makes s.2 part := by
  obtain ⟨u, reached', stands⟩ := copying.reaches_source root named reached
  cases stands with
  | container is copied =>
    obtain ⟨address, rfl, le, lt⟩ := copying.fresh copied
    exact ⟨le, lt⟩
  | extension is fresh lt eq => exact ⟨fresh, lt⟩
  | leaf notContainer notExtension =>
    rw [Value.uncopied?, copying.payload_eq (named part reached')] at built
    cases payload : source.payload part with
    | array items => rw [payload] at notContainer; cases notContainer
    | object fields => rw [payload] at notContainer; cases notContainer
    | extension e => exact absurd payload (notExtension e)
    | _ => rw [payload] at built; cases built

theorem Value.makes_deepClone {config : Config} {h h' : Heap} {source w : Value}
    (run : (deepClone source).perform config h = (w, h'))
    (named : ∀ u, h.Reaches Payload.elements source u → h.names u = true) {part : Value}
    (reached : h'.Reaches Payload.elements w part) (built : uncopied? h' part = none) :
    h.Makes h' part := by
  obtain ⟨copying, stands⟩ := copying_deepClone config h source named
  obtain ⟨rfl, rfl⟩ := Prod.mk.inj run
  exact copying.makes stands named reached built

/-! ## Queries -/

theorem Run.exists_settled {x : Attempt Value} {m m' : Machine} {answer : Value}
    (ends : (settle x).run.run m = (.ok answer, m')) :
    ∃ outcome h, HeapM.perform x.run m.config m.heap = (outcome, h) ∧ settled outcome = answer ∧
      m'.heap = h := by
  rw [settle_eq] at ends
  generalize HeapM.perform x.run m.config m.heap = outcome at ends
  obtain ⟨_ | v, h⟩ := outcome <;> cases ends <;> exact ⟨_, _, rfl, rfl, rfl⟩

namespace Query

/-- What a query builds inside its answer, where it builds more than one cell: the pairs of a list of
entries, all that is read from a JSON text, and all of a copy but what it shares with its source. -/
inductive Builds (h h' : Heap) (answer : Value) : Query → Value → Prop
  | pair {object part : Value} (mem : part ∈ (h'.payload answer).elements) :
    Builds h h' answer (.entries object) part
  | read {text part : Value} (reached : h'.Reaches Payload.elements answer part) :
    Builds h h' answer (.decode text) part
  | copy {source part : Value}
    (named : ∀ u, h.Reaches Payload.elements source u → h.names u = true)
    (reached : h'.Reaches Payload.elements answer part) (built : Value.uncopied? h' part = none) :
    Builds h h' answer (.deepClone source) part

/-- What a query builds is new. -/
theorem makes_of_builds {query : Query} {call : Caller} {m m' : Machine} {answer part : Value}
    (ends : (query.perform call).run.run m = (.ok answer, m'))
    (builds : query.Builds m.heap m'.heap answer part) : m.heap.Makes m'.heap part := by
  cases builds with
  | @pair object _ mem =>
    obtain ⟨outcome, h, run, rfl, rfl⟩ := Run.exists_settled ends
    exact Value.makes_entries object run mem
  | @read text _ reached =>
    obtain ⟨outcome, h, run, rfl, rfl⟩ := Run.exists_settled ends
    have all := (Value.createsAll_decode text m.config m.heap).2
    rw [run] at all
    exact all reached
  | @copy source _ named reached built =>
    have run : (liftM (Value.deepClone source) : Run Value).run.run m =
      (.ok ((Value.deepClone source).perform m.config m.heap).1,
        { m with heap := ((Value.deepClone source).perform m.config m.heap).2 }) := rfl
    cases run.symm.trans ends
    exact Value.makes_deepClone rfl named reached built

end Query

end ValueMachine
