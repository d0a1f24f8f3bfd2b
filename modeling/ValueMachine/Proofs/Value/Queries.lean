import ValueMachine.Builtin.Console
import ValueMachine.Builtin.Files
import ValueMachine.Builtin.System
import ValueMachine.Proofs.Sort.Sorting
import ValueMachine.Proofs.Value.BoxedOperands
import ValueMachine.Proofs.Value.HandedBack
import ValueMachine.Value.Limits

/-!
# Operations that write nothing

The operations on arrays, objects, texts and numbers, the conversions and operators, the forms of a
value as JSON and on the console, and the making of errors leave every cell as it is. What they
answer is new, unless they hand back an element, a field or an argument.

Results:
* `Action.Returns`, `Run.Returns` and the rules for them;
* `Query.returns`: no query changes a cell.
-/

namespace ValueMachine

/-! ## Operations of the machine -/

/-- The computation hands the given value back and leaves the heap alone, or, if none is given,
leaves every cell as it is and answers a new value. When it is halted every cell is as it was. -/
def Run.Returns (x : Run Value) (given : Option Value) (m : Machine) : Prop :=
  x.Ends m
    (fun v m' => match given with
      | some w => v = w ∧ m'.heap = m.heap
      | none => m.heap.Grows m'.heap ∧ m.heap.Makes m'.heap v)
    fun _ m' => m.heap.Grows m'.heap

/-- What holds of a computation that may fail, before its outcome is published. -/
def Action.Returns (x : Action Value) (given : Option Value) (m : Machine) : Prop :=
  match x.run.run.run m with
  | (.ok outcome, m') => match given with
    | some w => outcome = .ok w ∧ m'.heap = m.heap
    | none => m.heap.Grows m'.heap ∧ m.heap.Makes m'.heap (settled outcome)
  | (.error _, m') => m.heap.Grows m'.heap

variable {m : Machine} {given : Option Value}

theorem Action.returns_lift {x : Attempt Value}
    (returns : Attempt.Returns x given m.config m.heap) : Action.Returns (liftM x) given m := by
  unfold Action.Returns
  rw [Action.lift_eq]
  cases given with
  | some w =>
    rw [show HeapM.perform x.run m.config m.heap = (.ok w, m.heap) from returns]
    exact ⟨rfl, rfl⟩
  | none => exact ⟨returns.1.grows, returns.2⟩

theorem Run.returns_settle {x : Action Value} (returns : Action.Returns x given m) :
    Run.Returns (settle x) given m := by
  unfold Action.Returns at returns
  unfold Run.Returns settle
  rw [Run.ends_bind]
  unfold Run.Ends
  generalize x.run.run.run m = outcome at returns
  obtain ⟨_ | outcome, m'⟩ := outcome
  · exact returns
  · cases given with
    | some w =>
      obtain ⟨rfl, same⟩ := returns
      exact ⟨rfl, same⟩
    | none =>
      cases outcome with
      | error failure => exact returns
      | ok v => exact returns

theorem Run.returns_attempt {x : Attempt Value}
    (returns : Attempt.Returns x given m.config m.heap) : Run.Returns (settle x) given m :=
  returns_settle (Action.returns_lift returns)

theorem Run.returns_creates {x : Attempt Value} (creates : Attempt.Creates x) :
    Run.Returns (settle x) none m := returns_attempt creates.returns

theorem Run.returns_heap {x : HeapM Value} (returns : x.Returns given m.config m.heap) :
    Run.Returns (liftM x) given m := by
  have run : (liftM x : Run Value).run.run m =
    (.ok (x.perform m.config m.heap).1, { m with heap := (x.perform m.config m.heap).2 }) := rfl
  unfold Run.Returns Run.Ends
  rw [run]
  cases given with
  | some w =>
    rw [show x.perform m.config m.heap = (w, m.heap) from returns]
    exact ⟨rfl, rfl⟩
  | none => exact ⟨returns.1.grows, returns.2⟩

theorem Action.returns_giveUp : Action.Returns (ExceptT.lift giveUp) given m := .refl m.heap

theorem Action.returns_getThe {f : Machine → Action Value} :
    Action.Returns (getThe Machine >>= f) given m ↔ Action.Returns (f m) given m := Iff.rfl

theorem Action.returns_payloadOf {v : Value} {f : Payload → Action Value} :
    Action.Returns (liftM (payloadOf v) >>= f) given m ↔
      Action.Returns (f (m.heap.payload v)) given m := Iff.rfl

/-- An argument that has its form leaves the heap alone. -/
theorem heap_of_require {α : Type} {form : Payload → Option α} {v : Value}
    {operation requirement : String} {fallback : HeapM Value} {config : Config} {h h' : Heap}
    {a : α}
    (ok : HeapM.perform (require form v operation requirement fallback).run config h =
      (.ok a, h')) : h' = h := (require_ok ok).2

theorem Action.returns_bind {α : Type} {x : Attempt α} {f : α → Action Value}
    (preserves : Attempt.Preserves x)
    (next : ∀ a h, HeapM.perform x.run m.config m.heap = (.ok a, h) →
      Action.Returns (f a) none { m with heap := h }) :
    Action.Returns (liftM x >>= f) none m := by
  obtain ⟨⟨grows, -⟩, falls⟩ := preserves m.config m.heap
  have run : (liftM x >>= f).run.run.run m =
      match HeapM.perform x.run m.config m.heap with
      | (.ok a, h) => (f a).run.run.run { m with heap := h }
      | (.error failure, h) => (.ok (.error failure), { m with heap := h }) := by
    rw [ExceptT.run_bind, ExceptT.run_bind, StateT.run_bind, Action.lift_eq]
    rcases HeapM.perform x.run m.config m.heap with ⟨_ | a, h⟩ <;> rfl
  unfold Action.Returns
  rw [run]
  generalize HeapM.perform x.run m.config m.heap = outcome at grows falls next
  obtain ⟨failure | a, h⟩ := outcome
  · exact ⟨grows, falls failure rfl⟩
  · have returns := next a h rfl
    unfold Action.Returns at returns
    dsimp only
    generalize (f a).run.run.run { m with heap := h } = last at returns
    obtain ⟨_ | outcome, m'⟩ := last
    · exact grows.trans returns
    · exact ⟨grows.trans returns.1, returns.2.of_grows grows⟩

/-- In every case the cells are kept. -/
theorem Run.Returns.grows {x : Run Value} (returns : Run.Returns x given m) :
    m.heap.Grows (x.run.run m).2.heap := by
  unfold Run.Returns Run.Ends at returns
  generalize x.run.run m = outcome at returns ⊢
  rcases outcome with ⟨_ | v, m'⟩
  · exact returns
  · cases given with
    | some w =>
      obtain ⟨_, same⟩ := returns
      show m.heap.Grows m'.heap
      rw [same]
      exact .refl m.heap
    | none => exact returns.1

/-! ### Conversions and searches -/

theorem Run.returns_payloadOf {v : Value} {f : Payload → Run Value} :
    Run.Returns (liftM (payloadOf v) >>= f) given m ↔ Run.Returns (f (m.heap.payload v)) given m :=
  Iff.rfl

/-- Of a new value, what answers a new value or its argument answers a new one. -/
theorem Run.Returns.bind {x : Run Value} {f : Value → Run Value} (made : Run.Returns x none m)
    (next : ∀ v m₁, Run.Returns (f v) none m₁ ∨ Run.Returns (f v) (some v) m₁) :
    Run.Returns (x >>= f) none m := by
  unfold Run.Returns at made ⊢
  rw [Run.ends_bind]
  unfold Run.Ends at made ⊢
  generalize x.run.run m = outcome at made
  rcases outcome with ⟨_ | v, m₁⟩
  · exact made
  · obtain ⟨grows, makes⟩ := made
    have ends := next v m₁
    unfold Run.Returns Run.Ends at ends
    dsimp only
    generalize (f v).run.run m₁ = last at ends ⊢
    rcases last with ⟨_ | w, m'⟩
    · exact grows.trans (ends.elim id id)
    · rcases ends with ⟨grows', makes'⟩ | ⟨rfl, same⟩
      · exact ⟨grows.trans grows', makes'.of_grows grows⟩
      · dsimp only
        rw [same]
        exact ⟨grows, makes⟩

/-- Of a value that is handed back, what answers a new value answers one. -/
theorem Run.Returns.bind_of_given {x : Run Value} {f : Value → Run Value} {v : Value}
    (back : Run.Returns x (some v) m)
    (next : ∀ m₁, m₁.heap = m.heap → Run.Returns (f v) none m₁) : Run.Returns (x >>= f) none m := by
  unfold Run.Returns at back ⊢
  rw [Run.ends_bind]
  refine Run.Ends.mono back fun w m₁ same => ?_
  obtain ⟨rfl, same⟩ := same
  have ends := next m₁ same
  unfold Run.Returns at ends
  rwa [same] at ends

theorem returns_indexOf (target needle : Value) :
    Run.Returns (Value.indexOf target needle) none m := by
  rw [Value.indexOf, Run.returns_payloadOf]
  split
  · exact Run.returns_creates (Value.creates_elementIndexOf target needle)
  · exact Run.returns_creates (Value.creates_partIndexOf target needle)

theorem returns_toStr (v : Value) :
    Run.Returns (Value.toStr v) ((m.heap.payload v).text?.map fun _ => v) m := by
  rw [Value.toStr, Run.returns_payloadOf]
  cases is : (m.heap.payload v).text? with
  | some content => exact Run.returns_attempt (Attempt.returns_pure v)
  | none => exact Run.returns_creates (Attempt.preserves_get.creates fun _ =>
      Attempt.creates_lift (HeapM.creates_ofText _))

/-- The number is rounded down if it is one, and a null is handed on. -/
theorem returns_toInt (v : Value) : Run.Returns (Value.toInt v) none m := by
  obtain ⟨floor, run, next⟩ : ∃ floor : Value → Run Value,
      Value.toInt v = settle (Value.toNum v) >>= floor ∧
      ∀ v m, Run.Returns (floor v)
        (if (m.heap.payload v).number?.isSome then none else some v) m := by
    refine ⟨_, rfl, fun v m => ?_⟩
    rw [Run.returns_payloadOf]
    cases (m.heap.payload v).number? with
    | some x => exact Run.returns_heap (HeapM.creates_ofNumber _ _ _)
    | none => exact ⟨rfl, rfl⟩
  have number : Run.Returns (settle (Value.toNum v)) _ m :=
    Run.returns_attempt (Value.returns_toNum v)
  rw [run]
  cases is : (m.heap.payload v).number? with
  | some x =>
    rw [is] at number
    refine number.bind_of_given fun m₁ same => ?_
    have floored := next v m₁
    rwa [same, is] at floored
  | none =>
    rw [is] at number
    refine number.bind fun v m₁ => ?_
    have floored := next v m₁
    split at floored
    · exact .inl floored
    · exact .inr floored

/-! ### Those that can be halted or look at the machine -/

theorem returns_range (start stop step : Value) :
    Action.Returns (Value.range start stop step) none m := by
  refine Action.returns_bind (Value.preserves_rangeArgs start stop step) fun args h _ => ?_
  dsimp only
  split
  · exact Action.returns_lift (Attempt.creates_lift (Value.creates_rangeOf _ _ _)).returns
  · exact Action.returns_giveUp

theorem returns_indexUnchecked (array : Value) (position : Nat) :
    Run.Returns (Value.indexUnchecked array position)
      ((m.heap.payload array).array?.bind (·[position]?)) m := by
  unfold Run.Returns Run.Ends
  rw [Value.indexUnchecked, Run.bind_payloadOf]
  cases (m.heap.payload array).array? with
  | none => exact ⟨.refl m.heap, trivial⟩
  | some items =>
    rw [Option.bind_some]
    dsimp only
    cases items[position]? with
    | none => exact Heap.Grows.refl m.heap
    | some item => exact ⟨rfl, rfl⟩

theorem returns_random : Action.Returns System.random none m := by
  rw [System.random, Action.returns_getThe]
  exact Action.returns_lift (Attempt.creates_lift (HeapM.creates_ofNumber _)).returns

theorem returns_printValues (vs : List Value) (newline : Bool) :
    Run.Returns (do Console.printValues vs newline; settle (return .undefined)) none m :=
  ⟨.refl m.heap, trivial⟩

theorem returns_printf (template : Value) (args : List Value) :
    Action.Returns (Console.printf template args) none m := by
  refine Action.returns_bind (Attempt.preserves_require _ _ _ _
    (HeapM.creates_pure Heap.makes_undefined)) fun template h _ => ?_
  rw [Action.returns_getThe]
  dsimp only
  split
  · exact ⟨.refl h, trivial⟩
  · exact Action.returns_giveUp

theorem returns_sort (call : Caller) (array : Value) {comparator : Value}
    (quiet : (m.heap.payload comparator).isFunction = false) :
    Action.Returns (Value.sort call array comparator) none m := by
  refine Action.returns_bind (Attempt.preserves_arrayArg _ _ _) fun items h ok => ?_
  obtain rfl : h = m.heap := heap_of_require ok
  rw [Action.returns_payloadOf]
  have plain (p : Payload) : Action.Returns (do
      if p.isNull || p.isUndefined then
        let h ← observe id
        Value.ofList (Id.run
          (sortM (fun a b => pure (h.defaultBefore a b)) items.toList.length items.toList))
      else failNull (.argument "sort" "comparator must be a function") .object) none m := by
    split
    · exact Action.returns_bind (Attempt.preserves_lift (HeapM.preserves_observe id))
        fun h h' _ => Action.returns_lift (Attempt.creates_lift (HeapM.creates_ofList _)).returns
    · exact Action.returns_lift (Attempt.creates_failNull _ _).returns
  cases payload : m.heap.payload comparator with
  | function c => rw [payload] at quiet; cases quiet
  | _ => exact plain _

/-! ## Operations that write nothing -/

theorem Operator.creates_apply (op : Operator) (a b : Value) : (op.apply a b).Creates := by
  cases op with
  | add => exact Value.creates_add a b
  | sub => exact Value.creates_arithmetic _ a b
  | mul => exact Value.creates_arithmetic _ a b
  | div => exact Value.creates_arithmetic _ a b
  | modulo => exact Value.creates_arithmetic _ a b
  | _ => exact Value.creates_comparison _

/-- An operation on values that is no mutation. -/
inductive Query where
  -- Arrays
  | len (v : Value)
  | index (container key : Value)
  | indexSafe (container key : Value)
  | indexUnchecked (array : Value) (position : Nat)
  | push (array item : Value)
  | unshift (array item : Value)
  | pop (array : Value)
  | shift (array : Value)
  | slice (array start stop : Value)
  | concat (left right : Value)
  | spreadArray (target source : Value)
  | reverse (array : Value)
  | elementIndexOf (array needle : Value)
  | includes (array needle : Value)
  | sort (array comparator : Value)
  | range (start stop step : Value)
  -- Objects
  | getField (object : Value) (key : String)
  | getFieldBy (object key : Value)
  | getFieldSafe (object : Value) (key : String)
  | hasField (object : Value) (key : String)
  | keys (object : Value)
  | values (object : Value)
  | entries (object : Value)
  | merge (left right : Value)
  | spreadObject (target source : Value)
  | getMethod (object : Value) (key : String)
  | getMethodByIndex (object key : Value)
  | shallowClone (v : Value)
  | deepClone (v : Value)
  -- Texts
  | charAt (target place : Value)
  | substr (target start length : Value)
  | indexOf (target needle : Value)
  | replace (target part replacement : Value)
  | split (target delimiter : Value)
  | join (array separator : Value)
  | trim (target : Value)
  | upper (target : Value)
  | lower (target : Value)
  | startsWith (target other : Value)
  | endsWith (target other : Value)
  | contains (target other : Value)
  -- Numbers
  | abs (v : Value)
  | floor (v : Value)
  | ceil (v : Value)
  | round (v : Value)
  | roundTo (v places : Value)
  | sqrt (v : Value)
  | pow (base exponent : Value)
  | min (a b : Value)
  | max (a b : Value)
  | clamp (v low high : Value)
  | isNaN (v : Value)
  | isFinite (v : Value)
  | random
  -- Conversions and operators
  | typeOf (v : Value)
  | toNum (v : Value)
  | toStr (v : Value)
  | toBl (v : Value)
  | toInt (v : Value)
  | kindIs (test : Kind → Bool) (v : Value)
  | operate (op : Operator) (a b : Value)
  | neg (v : Value)
  -- Forms of values
  | encode (v : Value)
  | decode (text : Value)
  | print (vs : List Value) (newline : Bool)
  | printf (template : Value) (args : List Value)
  | makeError (message code errorType : Value)

namespace Query

/-- Serves a query; `call` is how a sort would call its comparator. -/
def perform (call : Caller) : Query → Run Value
  | len v => settle (Value.len v)
  | index container key => settle (Value.index container key)
  | indexSafe container key => settle (Value.indexSafe container key)
  | indexUnchecked array position => Value.indexUnchecked array position
  | push array item => settle (Value.push array item)
  | unshift array item => settle (Value.unshift array item)
  | pop array => settle (Value.pop array)
  | shift array => settle (Value.shift array)
  | slice array start stop => settle (Value.slice array start stop)
  | concat left right => settle (Value.concat left right)
  | spreadArray target source => settle (Value.spreadArray target source)
  | reverse array => settle (Value.reverse array)
  | elementIndexOf array needle => settle (Value.elementIndexOf array needle)
  | includes array needle => settle (Value.includes array needle)
  | sort array comparator => settle (Value.sort call array comparator)
  | range start stop step => settle (Value.range start stop step)
  | getField object key => settle (Value.getField object key)
  | getFieldBy object key => settle (Value.getFieldBy object key)
  | getFieldSafe object key => settle (Value.getFieldSafe object key)
  | hasField object key => settle (Value.hasField object key)
  | keys object => settle (Value.keys object)
  | values object => settle (Value.values object)
  | entries object => settle (Value.entries object)
  | merge left right => settle (Value.merge left right)
  | spreadObject target source => settle (Value.spreadObject target source)
  | getMethod object key => settle (Value.getMethod object key)
  | getMethodByIndex object key => settle (Value.getMethodByIndex object key)
  | shallowClone v => Value.shallowClone v
  | deepClone v => Value.deepClone v
  | charAt target place => settle (Value.charAt target place)
  | substr target start length => settle (Value.substr target start length)
  | indexOf target needle => Value.indexOf target needle
  | replace target part replacement => settle (Value.replace target part replacement)
  | split target delimiter => settle (Value.split target delimiter)
  | join array separator => settle (Value.join array separator)
  | trim target => settle (Value.trim target)
  | upper target => settle (Value.upper target)
  | lower target => settle (Value.lower target)
  | startsWith target other => settle (Value.startsWith target other)
  | endsWith target other => settle (Value.endsWith target other)
  | contains target other => settle (Value.contains target other)
  | abs v => settle (Value.abs v)
  | floor v => settle (Value.floor v)
  | ceil v => settle (Value.ceil v)
  | round v => settle (Value.round v)
  | roundTo v places => settle (Value.roundTo v places)
  | sqrt v => settle (Value.sqrt v)
  | pow base exponent => settle (Value.pow base exponent)
  | min a b => settle (Value.min a b)
  | max a b => settle (Value.max a b)
  | clamp v low high => settle (Value.clamp v low high)
  | isNaN v => settle (Value.isNaN v)
  | isFinite v => settle (Value.isFinite v)
  | random => settle System.random
  | typeOf v => Value.typeOf v
  | toNum v => settle (Value.toNum v)
  | toStr v => Value.toStr v
  | toBl v => settle (Value.toBl v)
  | toInt v => Value.toInt v
  | kindIs test v => settle (Value.kindIs test v)
  | operate op a b => op.apply a b
  | neg v => Value.neg v
  | encode v => settle (Value.encode v)
  | decode text => settle (Value.decode text)
  | print vs newline => do
    Console.printValues vs newline
    settle (return .undefined)
  | printf template args => settle (Console.printf template args)
  | makeError message code errorType => settle (Value.makeError message code errorType)

/-- Whether a query calls no function: only a sort can. -/
def CallsNothing (h : Heap) : Query → Prop
  | sort _ comparator => (h.payload comparator).isFunction = false
  | _ => True

/-- What a query hands back: an element, a field, or an argument. -/
def handsBack? (h : Heap) : Query → Option Value
  | index container key => h.elementAt? container key
  | indexSafe container key => h.elementAt? container key
  | indexUnchecked array position => (h.payload array).array?.bind (·[position]?)
  | getField object key => (h.payload object).object?.bind (·.get? key)
  | getFieldBy object key =>
    (h.payload key).text?.bind fun name => (h.payload object).object?.bind (·.get? name)
  | getFieldSafe object key => (h.payload object).object?.bind (·.get? key)
  | getMethod object key =>
    ((h.payload object).object?.bind (·.get? key)).bind (Value.unbound? h)
  | getMethodByIndex object key => (h.elementAt? object key).bind (Value.unbound? h)
  | spreadObject target source => Value.unspread? h target source
  | shallowClone v => Value.uncopied? h v
  | deepClone v => Value.uncopied? h v
  | charAt target place => (h.payload target).array?.bind fun items =>
    (h.payload place).number?.bind fun x => (Value.place? x).bind (items[·]?)
  | toNum v => (h.payload v).number?.map fun _ => v
  | toStr v => (h.payload v).text?.map fun _ => v
  | _ => none

/-- A query changes no cell. What it answers is handed back or new. -/
theorem returns (call : Caller) (query : Query) (quiet : query.CallsNothing m.heap) :
    Run.Returns (query.perform call) (query.handsBack? m.heap) m := by
  open Run Value in
  cases query with
  | len v => exact returns_creates (creates_len v)
  | index container key => exact returns_attempt (returns_lookup container key)
  | indexSafe container key => exact returns_attempt (returns_indexSafe container key)
  | indexUnchecked array position => exact returns_indexUnchecked array position
  | push array item => exact returns_creates (creates_push array item)
  | unshift array item => exact returns_creates (creates_unshift array item)
  | pop array => exact returns_creates (creates_pop array)
  | shift array => exact returns_creates (creates_shift array)
  | slice array start stop => exact returns_creates (creates_slice array start stop)
  | concat left right => exact returns_creates (creates_concat left right)
  | spreadArray target source => exact returns_creates (creates_spreadArray target source)
  | reverse array => exact returns_creates (creates_reverse array)
  | elementIndexOf array needle => exact returns_creates (creates_elementIndexOf array needle)
  | includes array needle => exact returns_creates (creates_includes array needle)
  | sort array comparator => exact returns_settle (returns_sort call array quiet)
  | range start stop step => exact returns_settle (returns_range start stop step)
  | getField object key => exact returns_attempt (returns_readField object key)
  | getFieldBy object key => exact returns_attempt (returns_getFieldBy object key)
  | getFieldSafe object key => exact returns_attempt (returns_getFieldSafe object key)
  | hasField object key => exact returns_creates (creates_hasField object key)
  | keys object => exact returns_creates (creates_keys object)
  | values object => exact returns_creates (creates_values object)
  | entries object => exact returns_creates (creates_entries object)
  | merge left right => exact returns_creates (creates_merge left right)
  | spreadObject target source => exact returns_attempt (returns_spreadObject target source)
  | getMethod object key =>
    exact returns_attempt (returns_bound (returns_readField object key) object)
  | getMethodByIndex object key =>
    exact returns_attempt (returns_bound (returns_lookup object key) object)
  | shallowClone v => exact returns_heap (returns_shallowClone v)
  | deepClone v => exact returns_heap (returns_deepClone v)
  | charAt target place => exact returns_attempt (returns_charAt target place)
  | substr target start length => exact returns_creates (creates_substr target start length)
  | indexOf target needle => exact returns_indexOf target needle
  | replace target part replacement =>
    exact returns_creates (creates_replace target part replacement)
  | split target delimiter => exact returns_creates (creates_split target delimiter)
  | join array separator => exact returns_creates (creates_join array separator)
  | trim target => exact returns_creates (creates_mapText _ _ target)
  | upper target => exact returns_creates (creates_mapText _ _ target)
  | lower target => exact returns_creates (creates_mapText _ _ target)
  | startsWith target other => exact returns_creates (creates_compareTexts _ _ target other)
  | endsWith target other => exact returns_creates (creates_compareTexts _ _ target other)
  | contains target other => exact returns_creates (creates_compareTexts _ _ target other)
  | abs v => exact returns_creates (creates_mapNumber _ _ v)
  | floor v => exact returns_creates (creates_mapNumber _ _ v)
  | ceil v => exact returns_creates (creates_mapNumber _ _ v)
  | round v => exact returns_creates (creates_mapNumber _ _ v)
  | roundTo v places => exact returns_creates (creates_mapNumbers _ _ v places)
  | sqrt v => exact returns_creates (creates_sqrt v)
  | pow base exponent => exact returns_creates (creates_pow base exponent)
  | min a b => exact returns_creates (creates_mapNumbers _ _ a b)
  | max a b => exact returns_creates (creates_mapNumbers _ _ a b)
  | clamp v low high => exact returns_creates (creates_clamp v low high)
  | isNaN v => exact returns_creates (creates_isNaN v)
  | isFinite v => exact returns_creates (creates_isFinite v)
  | random => exact returns_settle returns_random
  | typeOf v => exact returns_heap (creates_typeOf v _ _)
  | toNum v => exact returns_attempt (returns_toNum v)
  | toStr v => exact returns_toStr v
  | toBl v => exact returns_creates (creates_toBl v)
  | toInt v => exact returns_toInt v
  | kindIs test v => exact returns_creates (creates_kindIs test v)
  | operate op a b => exact returns_heap (op.creates_apply a b _ _)
  | neg v => exact returns_heap (creates_neg v _ _)
  | encode v => exact returns_creates (creates_encode v)
  | decode text => exact returns_creates (creates_decode text)
  | print vs newline => exact returns_printValues vs newline
  | printf template args => exact returns_settle (returns_printf template args)
  | makeError message code errorType =>
    exact returns_creates (creates_makeError message code errorType)

end Query

end ValueMachine
