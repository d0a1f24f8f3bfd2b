import ValueMachine.Builtin.Behaviour
import ValueMachine.Proofs.Machine.Reporting
import ValueMachine.Proofs.Value.Queries

/-!
# The status after a builtin

Builtins on values replace the status: by `ok` without a message, or by the code and the message of
what failed. What they do is the same whatever the status was. The kind of a value and the two ways
of copying it leave the status alone.

Results:
* `reports_len` and the others: every failure of an operation has a code and a message;
* `Builtin.settles_or_ignores`: what a builtin does with the status.
-/

namespace ValueMachine

/-! ## What fails has a report -/

namespace Value

open Attempt (Reports reports_after reports_arrayArg reports_fail reports_failNull reports_get
  reports_lift reports_mapM reports_numberArg reports_pure reports_read reports_require
  reports_textArg)

/-! ### Arrays -/

theorem reports_len (v : Value) : Reports (len v) := by
  refine reports_after _ fun p => ?_
  split <;> first | exact reports_lift _ | exact reports_failNull _ _

theorem reports_push (array item : Value) : Reports (push array item) :=
  (reports_arrayArg _ _ _).bind fun _ => reports_lift _

theorem reports_unshift (array item : Value) : Reports (unshift array item) :=
  (reports_arrayArg _ _ _).bind fun _ => reports_lift _

theorem reports_pop (array : Value) : Reports (pop array) := by
  refine (reports_arrayArg _ _ _).bind fun items => ?_
  split
  · exact reports_failNull _ _
  · exact reports_lift _

theorem reports_shift (array : Value) : Reports (shift array) := by
  refine (reports_arrayArg _ _ _).bind fun items => ?_
  split
  · exact reports_failNull _ _
  · exact reports_lift _

theorem reports_slice (array start stop : Value) : Reports (slice array start stop) :=
  (reports_arrayArg _ _ _).bind fun _ => reports_after _ fun _ => reports_after _ fun _ =>
    reports_lift _

theorem reports_concat (left right : Value) : Reports (concat left right) := by
  refine reports_after _ fun p => reports_after _ fun q => ?_
  split
  · exact reports_lift _
  · exact reports_failNull _ _

theorem reports_reverse (array : Value) : Reports (reverse array) :=
  (reports_arrayArg _ _ _).bind fun _ => reports_lift _

theorem reports_elementIndexOf (array needle : Value) : Reports (elementIndexOf array needle) := by
  refine (reports_arrayArg _ _ _).bind fun _ => reports_get.bind fun h => ?_
  split
  · exact reports_lift _
  · exact reports_lift _

theorem reports_includes (array needle : Value) : Reports (includes array needle) :=
  (reports_arrayArg _ _ _).bind fun _ => reports_get.bind fun _ => reports_pure _

theorem reports_rangeArgs (start stop step : Value) : Reports (rangeArgs start stop step) := by
  refine (reports_numberArg _ _ _ _).bind fun first => (reports_numberArg _ _ _ _).bind fun last =>
    reports_after _ fun p => ?_
  have close (width : Float) : Reports
      (if width == 0.0 then fail .zeroStep .null else pure (first, last, width)) := by
    split
    · exact reports_fail _ _
    · exact reports_pure _
  dsimp only
  split
  · exact (reports_pure _).bind close
  · exact (reports_numberArg _ _ _ _).bind close

/-! ### Objects -/

theorem reports_entriesArg (object : Value) (operation : String) :
    Reports (entriesArg object operation) :=
  (reports_require _ _ _ _ _).bind fun _ => reports_pure _

theorem reports_hasField (object : Value) (key : String) : Reports (hasField object key) := by
  refine reports_after _ fun p => ?_
  split
  · exact reports_after _ fun _ => reports_pure _
  · exact reports_pure _
  · exact reports_pure _

theorem reports_deleteField (object : Value) (key : String) : Reports (deleteField object key) :=
  (reports_require _ _ _ _ _).bind fun _ => reports_after _ fun _ => reports_pure _

theorem reports_keys (object : Value) : Reports (keys object) :=
  (reports_entriesArg _ _).bind fun _ =>
    (reports_mapM _ _ fun _ _ => reports_lift _).bind fun _ => reports_lift _

theorem reports_values (object : Value) : Reports (values object) :=
  (reports_entriesArg _ _).bind fun _ => reports_lift _

theorem reports_entries (object : Value) : Reports (entries object) :=
  (reports_entriesArg _ _).bind fun _ =>
    (reports_mapM _ _ fun _ _ => reports_after _ fun _ => reports_lift _).bind fun _ =>
      reports_lift _

theorem reports_mergeSide (side : Value) : Reports (mergeSide side) := by
  refine reports_after _ fun p => ?_
  split
  · exact reports_pure _
  · exact reports_entriesArg _ _

theorem reports_merge (left right : Value) : Reports (merge left right) :=
  (reports_mergeSide _).bind fun _ => (reports_mergeSide _).bind fun _ => reports_lift _

/-! ### Texts -/

theorem reports_charsArg (v : Value) (operation requirement : String) (fallback : HeapM Value) :
    Reports (charsArg v operation requirement fallback) :=
  (reports_require _ _ _ _ _).bind fun _ => reports_pure _

theorem reports_charAt (target index : Value) : Reports (charAt target index) := by
  refine reports_after _ fun p => ?_
  split
  · refine (reports_require _ _ _ _ _).bind fun i => ?_
    split
    · exact reports_pure _
    · exact reports_fail _ _
  · refine (reports_charsArg _ _ _ _).bind fun text => (reports_require _ _ _ _ _).bind fun i => ?_
    split
    · exact reports_lift _
    · exact reports_failNull _ _

theorem reports_substr (target start length : Value) : Reports (substr target start length) := by
  refine (reports_charsArg _ _ _ _).bind fun text => (reports_require _ _ _ _ _).bind fun first =>
    reports_after _ fun p => ?_
  split
  · exact reports_lift _
  · exact reports_lift _

theorem reports_partIndexOf (target part : Value) : Reports (partIndexOf target part) := by
  refine reports_after _ fun p => reports_after _ fun q => ?_
  split
  · split
    · exact reports_lift _
    · exact reports_lift _
  · exact reports_after _ fun _ => reports_fail _ _

theorem reports_compareTexts (operation : String) (test : List Char → List Char → Bool)
    (target other : Value) : Reports (compareTexts operation test target other) :=
  (reports_charsArg _ _ _ _).bind fun _ => (reports_charsArg _ _ _ _).bind fun _ => reports_pure _

theorem reports_replace (target part replacement : Value) :
    Reports (replace target part replacement) := by
  refine reports_after _ fun p => reports_after _ fun q => reports_after _ fun r => ?_
  split
  · split
    · exact reports_lift _
    · exact reports_lift _
  · exact reports_after _ fun _ => reports_fail _ _

theorem reports_mapText (operation : String) (change : List Char → List Char) (target : Value) :
    Reports (mapText operation change target) :=
  (reports_charsArg _ _ _ _).bind fun _ => reports_lift _

theorem reports_split (target delimiter : Value) : Reports (split target delimiter) :=
  (reports_charsArg _ _ _ _).bind fun _ => reports_after _ fun _ =>
    (reports_mapM _ _ fun _ _ => reports_lift _).bind fun _ => reports_lift _

theorem reports_join (array separator : Value) : Reports (join array separator) :=
  (reports_require _ _ _ _ _).bind fun _ => reports_after _ fun _ => reports_get.bind fun _ =>
    reports_lift _

/-! ### Numbers -/

theorem reports_mapNumber (operation : String) (f : Float → Float) (v : Value) :
    Reports (mapNumber operation f v) :=
  (reports_numberArg _ _ _ _).bind fun _ => reports_lift _

theorem reports_sqrt (v : Value) : Reports (sqrt v) := by
  refine (reports_numberArg _ _ _ _).bind fun x => ?_
  split
  · exact reports_failNull _ _
  · exact reports_lift _

theorem reports_isNaN (v : Value) : Reports (isNaN v) := reports_after _ fun _ => reports_pure _

theorem reports_isFinite (v : Value) : Reports (isFinite v) :=
  reports_after _ fun _ => reports_pure _

theorem reports_mapNumbers (operation : String) (f : Float → Float → Float) (a b : Value) :
    Reports (mapNumbers operation f a b) :=
  (reports_numberArg _ _ _ _).bind fun _ => (reports_numberArg _ _ _ _).bind fun _ =>
    reports_lift _

theorem reports_pow (base exponent : Value) : Reports (pow base exponent) :=
  (reports_numberArg _ _ _ _).bind fun _ => (reports_numberArg _ _ _ _).bind fun _ =>
    reports_lift _

theorem reports_clamp (v low high : Value) : Reports (clamp v low high) := by
  refine (reports_numberArg _ _ _ _).bind fun x => (reports_numberArg _ _ _ _).bind fun low =>
    (reports_numberArg _ _ _ _).bind fun high => ?_
  split
  · exact reports_failNull _ _
  · exact reports_lift _

/-! ### Coercion -/

theorem reports_toNum (v : Value) : Reports (toNum v) := by
  refine reports_after _ fun p => ?_
  cases p with
  | number x => exact reports_pure _
  | undefined => exact reports_lift _
  | bool b => exact reports_lift _
  | null => exact reports_lift _
  | text isStatic content =>
    dsimp only
    split
    · exact reports_failNull _ _
    · refine reports_get.bind fun h => ?_
      split
      · exact reports_lift _
      · exact reports_failNull _ _
  | _ => exact reports_failNull _ _

theorem reports_ofDisplay (v : Value) : Reports (ofDisplay v) :=
  reports_get.bind fun _ => reports_lift _

theorem reports_toBl (v : Value) : Reports (toBl v) := reports_get.bind fun _ => reports_pure _

theorem reports_kindIs (test : Kind → Bool) (v : Value) : Reports (kindIs test v) :=
  reports_get.bind fun _ => reports_pure _

/-! ### JSON and errors -/

theorem reports_encode (v : Value) : Reports (encode v) := reports_lift _

theorem reports_decode (text : Value) : Reports (decode text) := by
  refine (reports_require _ _ _ _ _).bind fun content => reports_read.bind fun config => ?_
  split
  · exact reports_failNull _ _
  · refine reports_get.bind fun h => ?_
    split
    · exact reports_lift _
    · exact reports_failNull _ _

theorem reports_makeError (message code errorType : Value) :
    Reports (makeError message code errorType) := by
  refine (reports_textArg _ _ _ _).bind fun message => reports_after _ fun p =>
    reports_after _ fun q => ?_
  dsimp only
  split
  · exact (reports_pure _).bind fun _ => reports_lift _
  · exact (reports_textArg _ _ _ _).bind fun _ => reports_lift _

end Value

/-! ## Those that publish in one of several ways -/

section

variable {m : Machine}

theorem settles_toStr (v : Value) : Run.Settles (Value.toStr v) m := by
  rw [Value.toStr, Run.settles_payloadOf]
  split
  · exact Run.settles_attempt (Attempt.reports_pure v) m
  · exact Run.settles_attempt (Value.reports_ofDisplay v) m

/-- The conversion publishes; the rounding after it does not. -/
theorem settles_toInt (v : Value) : Run.Settles (Value.toInt v) m := by
  refine (Run.settles_attempt (Value.reports_toNum v) m).bind fun number m₁ => ?_
  rw [Run.ignoresStatus_payloadOf]
  split
  · exact Run.ignoresStatus_lift _ m₁
  · exact Run.ignoresStatus_pure _ m₁

theorem settles_indexOf (target needle : Value) : Run.Settles (Value.indexOf target needle) m := by
  rw [Value.indexOf, Run.settles_payloadOf]
  split
  · exact Run.settles_attempt (Value.reports_elementIndexOf _ _) m
  · exact Run.settles_attempt (Value.reports_partIndexOf _ _) m

/-- A key that is no text is reported here; otherwise the operation on the key publishes. -/
theorem settles_withKey (operation : String) {onKey : Value → String → Run Value}
    (settles : ∀ object name, Run.Settles (onKey object name) m) (object key : Value) :
    Run.Settles (Value.withKey operation onKey object key) m := by
  rw [Value.withKey, Run.settles_payloadOf]
  split
  · exact settles _ _
  · exact Run.settles_attempt (Attempt.reports_fail _ _) m

end

/-! ## Those that can be halted or call functions -/

/-- The step of a range: one if none is given. -/
def Heap.rangeStep? (h : Heap) (step : Value) : Option Float :=
  if (h.payload step).isNull || (h.payload step).isUndefined then some 1.0
  else (h.payload step).number?

/-- A range that can be an array, or is none. -/
def Heap.RangeFits (h : Heap) (start stop step : Value) : Prop :=
  ∀ first last width, (h.payload start).number? = some first →
    (h.payload stop).number? = some last → h.rangeStep? step = some width →
    Value.rangeCount first last width < Value.arrayLimit

theorem rangeArgs_ok {start stop step : Value} {config : Config} {h h' : Heap}
    {first last width : Float}
    (ok : HeapM.perform (Value.rangeArgs start stop step).run config h =
      (.ok (first, last, width), h')) :
    (h.payload start).number? = some first ∧ (h.payload stop).number? = some last ∧
      h.rangeStep? step = some width := by
  unfold Value.rangeArgs at ok
  obtain ⟨x, h₁, hstart, afterStart⟩ := Attempt.exists_of_bind ok
  obtain ⟨isFirst, rfl⟩ := require_ok hstart
  obtain ⟨y, h₂, hstop, afterStop⟩ := Attempt.exists_of_bind afterStart
  obtain ⟨isLast, rfl⟩ := require_ok hstop
  obtain ⟨p, h₃, read, afterRead⟩ := Attempt.exists_of_bind afterStop
  obtain ⟨rfl, rfl⟩ : h₂.payload step = p ∧ h₂ = h₃ :=
    ⟨Except.ok.inj (Prod.ext_iff.mp read).1, (Prod.ext_iff.mp read).2⟩
  have close : ∀ (w : Float) (h₄ : Heap),
      HeapM.perform (if w == 0.0 then fail .zeroStep .null else pure (x, y, w) :
        Attempt (Float × Float × Float)).run config h₄ = (.ok (first, last, width), h') →
      (x, y, w) = (first, last, width) := by
    intro w h₄ ended
    split at ended
    · cases (Prod.ext_iff.mp ended).1
    · exact Except.ok.inj (Prod.ext_iff.mp ended).1
  rw [Heap.rangeStep?]
  dsimp only at afterRead
  split at afterRead
  · next absent =>
    cases close 1.0 h₂ afterRead
    exact ⟨isFirst, isLast, if_pos absent⟩
  · next given =>
    obtain ⟨w, h₄, hstep, afterStep⟩ := Attempt.exists_of_bind afterRead
    cases close w h₄ afterStep
    exact ⟨isFirst, isLast, (if_neg given).trans (require_ok hstep).1⟩

theorem settles_range {m : Machine} {start stop step : Value}
    (fits : m.heap.RangeFits start stop step) :
    Action.Settles (Value.range start stop step) m := by
  refine Action.settles_bind (Value.reports_rangeArgs start stop step) fun args h ok => ?_
  obtain ⟨first, last, width⟩ := args
  obtain ⟨hfirst, hlast, hwidth⟩ := rangeArgs_ok ok
  dsimp only
  rw [if_pos (fits first last width hfirst hlast hwidth)]
  exact Action.settles_heap _ _

theorem settles_sort {m : Machine} (call : Caller) (array : Value) {comparator : Value}
    (quiet : (m.heap.payload comparator).isFunction = false) :
    Action.Settles (Value.sort call array comparator) m := by
  refine Action.settles_bind (Attempt.reports_arrayArg _ _ _) fun items h ok => ?_
  obtain rfl : h = m.heap := heap_of_require ok
  rw [Action.settles_payloadOf]
  have plain (p : Payload) : Action.Settles (do
      if p.isNull || p.isUndefined then
        let h ← observe id
        Value.ofList (Id.run
          (sortM (fun a b => pure (h.defaultBefore a b)) items.toList.length items.toList))
      else failNull (.argument "sort" "comparator must be a function") .object) m := by
    split
    · exact Action.settles_bind (Attempt.reports_lift (observe id)) fun h h' _ =>
        Action.settles_heap _ _
    · exact Action.settles_lift (Attempt.reports_failNull _ _) _
  cases payload : m.heap.payload comparator with
  | function c => rw [payload] at quiet; cases quiet
  | _ => exact plain _

/-! ## Builtins -/

namespace Builtin

open Value

/-- The builtins that replace the status. -/
def settling : List Builtin :=
  [len, toNum, toStr, toBl, toInt, isNum, isStr, isBl, isArr, isObj, isNull, isUndef, isFunc, push,
   pop, shift, unshift, slice, concat, reverse, indexOf, includes, sort, range, charAt, substr,
   replace, split, join, trim, upper, lower, startsWith, endsWith, contains, keys, values, entries,
   hasField, deleteField, merge, toJSON, parseJSON, abs, floor, ceil, round, sqrt, pow, min, max,
   clamp, isNaN, isFinite, makeError]

/-- The builtins that leave the status alone. -/
def ignoring : List Builtin := [typeOf, clone, deepClone]

/-- A sort is given no function to compare by, and a range can be an array. -/
def StandsAlone (b : Builtin) (h : Heap) (args : List Value) : Prop :=
  let x := args.getD 0 .undefined
  let y := args.getD 1 .undefined
  let z := args.getD 2 .undefined
  match b with
  | sort => (h.payload y).isFunction = false
  | range => h.RangeFits x y z
  | _ => True

/-- What a builtin does with the status, if it is on its own and is given any arguments: either it
has the same result whatever the status was and leaves a status of its own, or it leaves the status
alone. -/
theorem settles_or_ignores (b : Builtin) (call : Caller) (args : List Value) (m : Machine)
    (alone : b.StandsAlone m.heap args) :
    (b ∈ settling → (b.run call args).Settles m) ∧
      (b ∈ ignoring → (b.run call args).IgnoresStatus m) := by
  constructor
  · intro listed
    cases b with
    | len => exact Run.settles_attempt (reports_len _) m
    | toNum => exact Run.settles_attempt (reports_toNum _) m
    | toStr => exact settles_toStr _
    | toBl => exact Run.settles_attempt (reports_toBl _) m
    | toInt => exact settles_toInt _
    | isNum => exact Run.settles_attempt (reports_kindIs _ _) m
    | isStr => exact Run.settles_attempt (reports_kindIs _ _) m
    | isBl => exact Run.settles_attempt (reports_kindIs _ _) m
    | isArr => exact Run.settles_attempt (reports_kindIs _ _) m
    | isObj => exact Run.settles_attempt (reports_kindIs _ _) m
    | isNull => exact Run.settles_attempt (reports_kindIs _ _) m
    | isUndef => exact Run.settles_attempt (reports_kindIs _ _) m
    | isFunc => exact Run.settles_attempt (reports_kindIs _ _) m
    | push => exact Run.settles_attempt (reports_push _ _) m
    | pop => exact Run.settles_attempt (reports_pop _) m
    | shift => exact Run.settles_attempt (reports_shift _) m
    | unshift => exact Run.settles_attempt (reports_unshift _ _) m
    | slice => exact Run.settles_attempt (reports_slice _ _ _) m
    | concat => exact Run.settles_attempt (reports_concat _ _) m
    | reverse => exact Run.settles_attempt (reports_reverse _) m
    | indexOf => exact settles_indexOf _ _
    | includes => exact Run.settles_attempt (reports_includes _ _) m
    | sort => exact Run.settles_settle (settles_sort call _ alone)
    | range => exact Run.settles_settle (settles_range alone)
    | charAt => exact Run.settles_attempt (reports_charAt _ _) m
    | substr => exact Run.settles_attempt (reports_substr _ _ _) m
    | replace => exact Run.settles_attempt (reports_replace _ _ _) m
    | split => exact Run.settles_attempt (reports_split _ _) m
    | join => exact Run.settles_attempt (reports_join _ _) m
    | trim => exact Run.settles_attempt (reports_mapText _ _ _) m
    | upper => exact Run.settles_attempt (reports_mapText _ _ _) m
    | lower => exact Run.settles_attempt (reports_mapText _ _ _) m
    | startsWith => exact Run.settles_attempt (reports_compareTexts _ _ _ _) m
    | endsWith => exact Run.settles_attempt (reports_compareTexts _ _ _ _) m
    | contains => exact Run.settles_attempt (reports_compareTexts _ _ _ _) m
    | keys => exact Run.settles_attempt (reports_keys _) m
    | values => exact Run.settles_attempt (reports_values _) m
    | entries => exact Run.settles_attempt (reports_entries _) m
    | hasField =>
      rw [Builtin.run]
      exact settles_withKey _ (fun _ _ => Run.settles_attempt (reports_hasField _ _) m) _ _
    | deleteField =>
      rw [Builtin.run]
      exact settles_withKey _ (fun _ _ => Run.settles_attempt (reports_deleteField _ _) m) _ _
    | merge => exact Run.settles_attempt (reports_merge _ _) m
    | toJSON => exact Run.settles_attempt (reports_encode _) m
    | parseJSON => exact Run.settles_attempt (reports_decode _) m
    | abs => exact Run.settles_attempt (reports_mapNumber _ _ _) m
    | floor => exact Run.settles_attempt (reports_mapNumber _ _ _) m
    | ceil => exact Run.settles_attempt (reports_mapNumber _ _ _) m
    | round =>
      rw [Builtin.run]
      split
      · exact Run.settles_attempt (reports_mapNumbers _ _ _ _) m
      · exact Run.settles_attempt (reports_mapNumber _ _ _) m
    | sqrt => exact Run.settles_attempt (reports_sqrt _) m
    | pow => exact Run.settles_attempt (reports_pow _ _) m
    | min => exact Run.settles_attempt (reports_mapNumbers _ _ _ _) m
    | max => exact Run.settles_attempt (reports_mapNumbers _ _ _ _) m
    | clamp => exact Run.settles_attempt (reports_clamp _ _ _) m
    | isNaN => exact Run.settles_attempt (reports_isNaN _) m
    | isFinite => exact Run.settles_attempt (reports_isFinite _) m
    | makeError => exact Run.settles_attempt (reports_makeError _ _ _) m
    | _ => exact absurd listed (by decide)
  · intro listed
    cases b with
    | typeOf => exact Run.ignoresStatus_lift _ m
    | clone => exact Run.ignoresStatus_lift _ m
    | deepClone => exact Run.ignoresStatus_lift _ m
    | _ => exact absurd listed (by decide)

/-- An array sorted without a comparator, a range of three numbers, and a copy. -/
theorem settles_or_ignores_numbers :
    let host : Host := ⟨"linux", "2024-01-01 00:00:00", 0, 0.5⟩
    let array : Cell := .ofPayload (.array #[.small 3, .small 1])
    let m : Machine := { Machine.start host [] with heap := .ofCells #[array] }
    let call : Caller := fun _ _ => giveUp
    sort.StandsAlone m.heap [.cell 0] ∧ range.StandsAlone m.heap [.small 0, .small 3] ∧
      (sort.run call [.cell 0]).Settles m ∧ (range.run call [.small 0, .small 3]).Settles m ∧
      (deepClone.run call [.cell 0]).IgnoresStatus m := by
  intro host array m call
  have fits : range.StandsAlone m.heap [.small 0, .small 3] := by
    rintro _ _ _ ⟨⟩ ⟨⟩ ⟨⟩
    decide +kernel
  exact ⟨rfl, fits, (settles_or_ignores sort call [.cell 0] m rfl).1 (by decide),
    (settles_or_ignores range call [.small 0, .small 3] m fits).1 (by decide),
    (settles_or_ignores deepClone call [.cell 0] m trivial).2 (by decide)⟩

end Builtin

end ValueMachine
