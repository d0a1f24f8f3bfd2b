import ValueMachine.Proofs.Function.Operating
import ValueMachine.Proofs.Value.HandedBack
import ValueMachine.Routine

/-!
# Builtins and sample bodies go on with a history

Most builtins change no cell. The others write to an object, an array or a file handle, which is no
function and no box, or call functions that they are given. So programs that are made of builtins and of
bodies that operate operate too.

Results:
* `Builtin.operates_body`: every builtin;
* `Routine.operates_body`, `Routine.operates_code`: every sample body.
-/

namespace ValueMachine

open History

/-! ## Operations that hand a value back -/

theorem HeapM.operates_of_returns {x : HeapM Value} {given : Heap → Option Value}
    (returns : ∀ config h, x.Returns (given h) config h) : x.Operates := by
  intro config h
  have back := returns config h
  cases is : given h with
  | some w =>
    rw [is] at back
    rw [show x.perform config h = (w, h) from back]
    exact .refl h
  | none =>
    rw [is] at back
    exact back.1.leads

theorem Attempt.operates_of_returns {x : Attempt Value} {given : Heap → Option Value}
    (returns : ∀ config h, Returns x (given h) config h) : Operates x :=
  fun config h => (returns config h).adds.leads

/-! ## Operations that write -/

namespace Value

theorem operates_setField (object : Value) (key : String) (v : Value) :
    Attempt.Operates (setField object key v) := by
  refine Attempt.operates_require_bind (HeapM.creates_pure Heap.makes_undefined)
    fun fields config h is => ?_
  exact leads_of_spares (h.spares_write (Payload.eq_of_object? is) rfl rfl)

theorem operates_deleteField (object : Value) (key : String) :
    Attempt.Operates (deleteField object key) := by
  refine Attempt.operates_require_bind (HeapM.creates_pure (Heap.makes_bool false))
    fun fields config h is => ?_
  exact leads_of_spares (h.spares_write (Payload.eq_of_object? is) rfl rfl)

end Value

theorem Files.operates_closeFile (handle : Value) : Attempt.Operates (closeFile handle) := by
  intro config h
  rw [closeFile, Attempt.bind_payloadOf]
  split
  · next file is => exact leads_of_spares (h.spares_write is rfl rfl)
  · exact .refl h

/-- An element is appended in place. -/
theorem Routine.operates_append (target item : Value) : (append target item).Operates := by
  intro config h
  rw [append, HeapM.bind_payloadOf]
  split
  · next items is => exact leads_of_spares (h.spares_write (Payload.eq_of_array? is) rfl rfl)
  · exact .refl h

/-! ## Sorting with a comparator -/

section

variable {α : Type} {before : α → α → Run Bool}

theorem operates_mergeM (operates : ∀ a b, (before a b).Operates) (fuel : Nat) :
    ∀ left right : List α, (mergeM before fuel left right).Operates := by
  induction fuel with
  | zero => exact fun _ _ => Run.operates_pure _
  | succ fuel ih =>
    intro left right
    cases left with
    | nil => exact Run.operates_pure _
    | cons x left =>
      cases right with
      | nil => exact Run.operates_pure _
      | cons y right =>
        refine (operates y x).bind fun first => ?_
        split
        · exact (ih _ _).bind fun _ => Run.operates_pure _
        · exact (ih _ _).bind fun _ => Run.operates_pure _

theorem operates_sortM (operates : ∀ a b, (before a b).Operates) (fuel : Nat) :
    ∀ items : List α, (sortM before fuel items).Operates := by
  induction fuel with
  | zero => exact fun _ => Run.operates_pure _
  | succ fuel ih =>
    intro items
    rw [sortM]
    split
    · exact Run.operates_pure _
    · exact (ih _).bind fun _ => (ih _).bind fun _ => operates_mergeM operates _ _ _

end

theorem Value.operates_sort {call : Caller}
    (calls : ∀ function args, (call function args).Operates) (array comparator : Value) :
    Action.Operates (sort call array comparator) := by
  refine (Action.operates_lift (Attempt.preserves_arrayArg _ _ _).operates).bind fun items =>
    (Action.operates_heap (HeapM.preserves_observe _).operates).bind fun p => ?_
  have made (items : List Value) : Action.Operates (liftM (ofList items) : Action Value) :=
    Action.operates_heap (HeapM.creates_ofList items).operates
  split
  · refine (Action.operates_run (operates_sortM (fun a b => ?_) _ _)).bind fun _ => made _
    exact (calls _ _).bind fun verdict => (Run.operates_observe _).bind fun _ => Run.operates_pure _
  · split
    · exact (Action.operates_heap (HeapM.preserves_observe _).operates).bind fun _ => made _
    · exact Action.operates_lift (Attempt.creates_failNull _ _).operates

/-! ## Conversions, ranges and searches -/

section

variable (x y z : Value)

theorem Value.operates_indexOf : (indexOf x y).Operates := by
  refine (Run.operates_observe _).bind fun p => ?_
  split
  · exact operates_attempt (creates_elementIndexOf x y).operates
  · exact operates_attempt (creates_partIndexOf x y).operates

theorem Value.operates_toNum : Attempt.Operates (toNum x) :=
  Attempt.operates_of_returns fun _ _ => returns_toNum x

theorem Value.operates_toInt : (toInt x).Operates := by
  refine (operates_attempt (operates_toNum x)).bind fun number => (Run.operates_observe _).bind
    fun p => ?_
  split
  · exact Run.operates_heap (HeapM.creates_ofNumber _).operates
  · exact Run.operates_pure _

theorem Value.operates_toStr : (toStr x).Operates := by
  refine (Run.operates_observe _).bind fun p => ?_
  split
  · exact operates_attempt (Attempt.preserves_pure x).operates
  · exact operates_attempt (Attempt.preserves_get.bind fun _ =>
      (Attempt.creates_lift (HeapM.creates_ofText _)).preserves).operates

theorem Value.operates_getField (key : String) : Attempt.Operates (getField x key) :=
  Attempt.operates_of_returns fun _ _ => returns_readField x key

theorem Value.operates_charAt : Attempt.Operates (charAt x y) :=
  Attempt.operates_of_returns fun _ _ => returns_charAt x y

theorem Value.operates_range : Action.Operates (range x y z) := by
  refine (Action.operates_lift (preserves_rangeArgs x y z).operates).bind fun args => ?_
  dsimp only
  split
  · exact Action.operates_heap (creates_rangeOf _ _ _).operates
  · exact Action.operates_run (Run.operates_throw _)

/-- The operation on the key is entered if the key is a text. -/
theorem Value.operates_withKey (operation : String) {onKey : Value → String → Run Value}
    (operates : ∀ object name, (onKey object name).Operates) :
    (withKey operation onKey x y).Operates := by
  refine (Run.operates_observe _).bind fun p => ?_
  split
  · exact operates _ _
  · exact operates_attempt (Attempt.preserves_fail _ (Heap.makes_bool false)).operates

end

/-! ## Console -/

namespace Console

theorem operates_printValues (vs : List Value) (newline : Bool) :
    (printValues vs newline).Operates :=
  Run.operates_get.bind fun _ => Run.operates_printOut _

theorem operates_printf (template : Value) (args : List Value) :
    Action.Operates (printf template args) := by
  have asked := Attempt.preserves_require Payload.text? template "printf" "format must be a string"
    (HeapM.creates_pure Heap.makes_undefined)
  refine (Action.operates_lift asked.operates).bind fun template =>
    Action.operates_machine.bind fun m => ?_
  split
  · exact (Action.operates_run (Run.operates_printOut _)).bind fun _ => Action.operates_pure _
  · exact Action.operates_run (Run.operates_throw _)

theorem operates_readLineFrom (stream : List UInt8) : (readLineFrom stream).Operates := by
  have shown (line : Text.LineRead) : Attempt.Operates (lineValue line) := by
    cases line with
    | line content => exact (HeapM.creates_ofText content).operates
    | endOfInput => exact (Attempt.creates_failNull _ _).operates
    | illFormed => exact (Attempt.creates_failNull _ _).operates
  exact (operates_attempt (shown _)).bind fun _ => Run.operates_pure _

theorem operates_input (prompt : Value) : (input prompt).Operates := by
  have asked : (promptText prompt).Operates :=
    ((HeapM.preserves_observe _).bind fun _ => HeapM.preserves_pure _).operates
  refine (Run.operates_heap asked).bind fun _ => (Run.operates_printOut _).bind fun _ =>
    Run.operates_get.bind fun m => (operates_readLineFrom _).bind fun read => ?_
  exact fun m => .refl m.heap

end Console

/-! ## Time, environment and status -/

namespace System

theorem operates_now : Action.Operates now :=
  Action.operates_machine.bind fun _ => Action.operates_heap (HeapM.creates_ofNumber _).operates

theorem operates_time : Action.Operates time :=
  Action.operates_machine.bind fun _ => Action.operates_heap (HeapM.creates_ofNat _).operates

theorem operates_date : Action.Operates date :=
  Action.operates_machine.bind fun _ => Action.operates_heap (HeapM.creates_ofText _).operates

theorem operates_random : Action.Operates random :=
  Action.operates_machine.bind fun _ => Action.operates_heap (HeapM.creates_ofNumber _).operates

theorem operates_sleep (seconds : Value) : Attempt.Operates (sleep seconds) := by
  refine Attempt.Operates.bind (Attempt.preserves_numberArg _ _ _ _).operates fun x => ?_
  split
  · exact (Attempt.preserves_fail _ Heap.makes_null).operates
  · exact (Attempt.preserves_pure _).operates

theorem operates_getEnv (name : Value) : AttemptOn.Operates (getEnv name) := by
  refine (AttemptOn.operates_lift (Attempt.preserves_textArg _ _ _ _).operates).bind fun name =>
    AttemptOn.operates_get.bind fun e => ?_
  split
  · exact AttemptOn.operates_heap (HeapM.creates_ofText _).operates
  · exact AttemptOn.operates_heap (HeapM.creates_nullOf _).operates

theorem operates_setEnv (name content : Value) : AttemptOn.Operates (setEnv name content) := by
  have asked (v : Value) (requirement : String) : Attempt.Operates
      (require Payload.text? v "setEnv" requirement (return .bool false)) :=
    (Attempt.preserves_require _ _ _ _ (HeapM.creates_pure (Heap.makes_bool false))).operates
  refine (AttemptOn.operates_lift (asked _ _)).bind fun name =>
    (AttemptOn.operates_lift (asked _ _)).bind fun content => ?_
  split
  · exact fun _ _ h => .refl h
  · exact AttemptOn.operates_fail _ _

theorem operates_environment : AttemptOn.Operates environment := by
  refine AttemptOn.operates_get.bind fun e => (AttemptOn.operates_mapM _ _ fun p => ?_).bind
    fun entries => AttemptOn.operates_heap (HeapM.creates_ofEntries _).operates
  exact (AttemptOn.operates_heap (HeapM.creates_ofText _).operates).bind fun _ =>
    AttemptOn.operates_pure _

theorem operates_exit (code : Value) : (exit code).Operates :=
  (Run.operates_observe _).bind fun _ => Run.operates_throw _

theorem operates_assert (condition message : Value) : (assert condition message).Operates := by
  refine (Run.operates_observe _).bind fun holds => ?_
  split
  · exact Run.operates_pure _
  · refine (Run.operates_observe _).bind fun p => ?_
    split <;> exact Run.operates_fatal _

theorem operates_isOk : isOk.Operates := Run.operates_get.bind fun _ => Run.operates_pure _

theorem operates_lastError : lastError.Operates :=
  Run.operates_get.bind fun _ => Run.operates_heap (HeapM.creates_ofText _).operates

theorem operates_lastStatus : lastStatus.Operates :=
  Run.operates_get.bind fun _ => Run.operates_heap (HeapM.creates_ofNat _).operates

theorem operates_clearError : clearError.Operates :=
  (Run.operates_setStatus _).bind fun _ => Run.operates_pure _

theorem operates_errorObject : errorObject.Operates :=
  Run.operates_get.bind fun _ => Run.operates_heap (HeapM.creates_ofExtension _).operates

end System

/-! ## Files -/

namespace Files

theorem operates_textArg (v : Value) (operation label : String) (kind : Kind) :
    AttemptOn.Operates (liftM (textArg v operation label kind) : FileAttempt String) :=
  AttemptOn.operates_lift (Attempt.preserves_textArg _ _ _ _).operates

theorem operates_flagTextArg (v : Value) (operation label : String) :
    AttemptOn.Operates (liftM (flagTextArg v operation label) : FileAttempt String) :=
  AttemptOn.operates_lift
    (Attempt.preserves_require _ _ _ _ (HeapM.creates_pure (Heap.makes_bool false))).operates

theorem operates_ask {α : Type} (step : FileTree → Except FileProblem α)
    (operation problem : String) {fallback : HeapM Value} (operates : fallback.Operates) :
    AttemptOn.Operates (ask step operation problem fallback) := by
  refine AttemptOn.operates_get.bind fun files => ?_
  split
  · exact AttemptOn.operates_pure _
  · exact (AttemptOn.operates_heap operates).bind fun _ => AttemptOn.operates_fail _ _

theorem operates_nullOf (kind : Kind) : (Value.nullOf kind).Operates :=
  (HeapM.creates_nullOf kind).operates

theorem operates_no : (return .bool false : HeapM Value).Operates :=
  (HeapM.preserves_pure _).operates

theorem operates_change (step : FileTree → Except FileProblem FileTree)
    (operation problem : String) : AttemptOn.Operates (change step operation problem) :=
  (operates_ask _ _ _ operates_no).bind fun _ => AttemptOn.operates_set _

theorem operates_readAll (path : Value) (operation : String) (kind : Kind) :
    AttemptOn.Operates (readAll path operation kind) :=
  (operates_textArg _ _ _ _).bind fun _ => operates_ask _ _ _ (operates_nullOf kind)

theorem operates_readFile (path : Value) : AttemptOn.Operates (readFile path) :=
  (operates_readAll _ _ _).bind fun _ => AttemptOn.operates_heap (HeapM.creates_ofText _).operates

theorem operates_readBytes (path : Value) : AttemptOn.Operates (readBytes path) :=
  (operates_readAll _ _ _).bind fun _ =>
    AttemptOn.operates_heap (HeapM.creates_ofExtension _).operates

theorem operates_readLines (path : Value) : AttemptOn.Operates (readLines path) :=
  (operates_readAll _ _ _).bind fun _ => (AttemptOn.operates_mapM _ _ fun _ =>
    AttemptOn.operates_heap (HeapM.creates_ofChars _).operates).bind fun _ =>
    AttemptOn.operates_heap (HeapM.creates_ofList _).operates

theorem operates_writeFile (path content : Value) : AttemptOn.Operates (writeFile path content) :=
  (operates_flagTextArg _ _ _).bind fun _ => (operates_flagTextArg _ _ _).bind fun _ =>
    (operates_change _ _ _).bind fun _ => AttemptOn.operates_pure _

theorem operates_appendFile (path content : Value) :
    AttemptOn.Operates (appendFile path content) :=
  (operates_flagTextArg _ _ _).bind fun _ => (operates_flagTextArg _ _ _).bind fun _ =>
    (operates_change _ _ _).bind fun _ => AttemptOn.operates_pure _

theorem operates_writeBytes (path data : Value) : AttemptOn.Operates (writeBytes path data) := by
  refine (operates_flagTextArg _ _ _).bind fun path =>
    (AttemptOn.operates_heap (HeapM.preserves_observe _).operates).bind fun bytes => ?_
  split
  · exact AttemptOn.operates_fail _ _
  · exact (operates_change _ _ _).bind fun _ => AttemptOn.operates_pure _

theorem operates_askPath {α : Type} (path : Value) (answer : FileTree → String → α) (default : α) :
    AttemptOn.Operates (askPath path answer default) :=
  (AttemptOn.operates_heap (HeapM.preserves_observe _).operates).bind fun _ =>
    AttemptOn.operates_get.bind fun _ => AttemptOn.operates_pure _

theorem operates_fileExists (path : Value) : AttemptOn.Operates (fileExists path) :=
  (operates_askPath _ _ _).bind fun _ => AttemptOn.operates_pure _

theorem operates_dirExists (path : Value) : AttemptOn.Operates (dirExists path) :=
  (operates_askPath _ _ _).bind fun _ => AttemptOn.operates_pure _

theorem operates_getFileSize (path : Value) : AttemptOn.Operates (getFileSize path) := by
  refine (operates_askPath _ _ _).bind fun opened => ?_
  split
  · exact AttemptOn.operates_heap (HeapM.creates_ofNat _).operates
  · exact AttemptOn.operates_heap (HeapM.creates_ofNat _).operates
  · exact AttemptOn.operates_heap (HeapM.creates_ofNumber _).operates

theorem operates_listDir (path : Value) : AttemptOn.Operates (listDir path) :=
  (operates_textArg _ _ _ _).bind fun _ => (operates_ask _ _ _ (operates_nullOf _)).bind fun _ =>
    (AttemptOn.operates_mapM _ _ fun _ =>
      AttemptOn.operates_heap (HeapM.creates_ofText _).operates).bind fun _ =>
    AttemptOn.operates_heap (HeapM.creates_ofList _).operates

theorem operates_deleteFile (path : Value) : AttemptOn.Operates (deleteFile path) :=
  (operates_flagTextArg _ _ _).bind fun _ => (operates_change _ _ _).bind fun _ =>
    AttemptOn.operates_pure _

theorem operates_renameFile (source target : Value) :
    AttemptOn.Operates (renameFile source target) :=
  (operates_flagTextArg _ _ _).bind fun _ => (operates_flagTextArg _ _ _).bind fun _ =>
    (operates_change _ _ _).bind fun _ => AttemptOn.operates_pure _

theorem operates_copyFile (source target : Value) : AttemptOn.Operates (copyFile source target) :=
  (operates_flagTextArg _ _ _).bind fun _ => (operates_flagTextArg _ _ _).bind fun _ =>
    (operates_ask _ _ _ operates_no).bind fun _ => (operates_change _ _ _).bind fun _ =>
    (operates_ask _ _ _ operates_no).bind fun _ => (operates_change _ _ _).bind fun _ =>
    AttemptOn.operates_pure _

theorem operates_createDir (path : Value) : AttemptOn.Operates (createDir path) := by
  refine (operates_flagTextArg _ _ _).bind fun path => AttemptOn.operates_get.bind fun files => ?_
  dsimp only
  split
  · exact (AttemptOn.operates_set _).bind fun _ => AttemptOn.operates_pure _
  · exact AttemptOn.operates_fail _ _
  · exact AttemptOn.operates_fail _ _

theorem operates_removeDir (path : Value) : AttemptOn.Operates (removeDir path) := by
  refine (operates_flagTextArg _ _ _).bind fun path => AttemptOn.operates_get.bind fun files => ?_
  dsimp only
  split
  · exact (AttemptOn.operates_set _).bind fun _ => AttemptOn.operates_pure _
  · exact AttemptOn.operates_fail _ _
  · exact AttemptOn.operates_fail _ _
  · exact AttemptOn.operates_fail _ _

theorem operates_openAs (path mode : String) : AttemptOn.Operates (openAs path mode) := by
  have asked {α : Type} (step : FileTree → Except FileProblem α) : AttemptOn.Operates
      (ask step "openFile" "cannot open file" (Value.nullOf .object)) :=
    operates_ask _ _ _ (operates_nullOf .object)
  unfold openAs
  split
  · exact (asked _).bind fun _ => AttemptOn.operates_pure _
  · exact (asked _).bind fun _ => (AttemptOn.operates_set _).bind fun _ => AttemptOn.operates_pure _
  · exact (asked _).bind fun opened => (asked _).bind fun _ =>
      (AttemptOn.operates_set _).bind fun _ => AttemptOn.operates_pure _
  · exact fun config _ h => (operates_nullOf .object) config h

theorem operates_openFile (path mode : Value) : AttemptOn.Operates (openFile path mode) :=
  (operates_textArg _ _ _ _).bind fun _ =>
    (AttemptOn.operates_heap (HeapM.preserves_observe _).operates).bind fun _ =>
    (operates_openAs _ _).bind fun _ =>
    AttemptOn.operates_heap (HeapM.creates_ofExtension _).operates

end Files

/-! ## Builtins -/

/-- Every builtin operates, if the calls that it makes do. -/
theorem Builtin.operates_body (b : Builtin) : Body.Operates b.body := by
  intro call args calls
  refine Run.Operates.bind ?_ fun _ => Run.operates_pure _
  open Value Files Console in
  cases b with
  | print =>
    exact (operates_printValues _ _).bind fun _ =>
      operates_attempt (Attempt.preserves_pure _).operates
  | println =>
    exact (operates_printValues _ _).bind fun _ =>
      operates_attempt (Attempt.preserves_pure _).operates
  | printf => exact operates_settle (operates_printf _ _)
  | input => exact operates_input _
  | len => exact operates_attempt (creates_len _).operates
  | typeOf => exact Run.operates_heap (creates_typeOf _).operates
  | toNum => exact operates_attempt (operates_toNum _)
  | toStr => exact operates_toStr _
  | toBl => exact operates_attempt (creates_toBl _).operates
  | toInt => exact operates_toInt _
  | isNum => exact operates_attempt (creates_kindIs _ _).operates
  | isStr => exact operates_attempt (creates_kindIs _ _).operates
  | isBl => exact operates_attempt (creates_kindIs _ _).operates
  | isArr => exact operates_attempt (creates_kindIs _ _).operates
  | isObj => exact operates_attempt (creates_kindIs _ _).operates
  | isNull => exact operates_attempt (creates_kindIs _ _).operates
  | isUndef => exact operates_attempt (creates_kindIs _ _).operates
  | isFunc => exact operates_attempt (creates_kindIs _ _).operates
  | push => exact operates_attempt (creates_push _ _).operates
  | pop => exact operates_attempt (creates_pop _).operates
  | shift => exact operates_attempt (creates_shift _).operates
  | unshift => exact operates_attempt (creates_unshift _ _).operates
  | slice => exact operates_attempt (creates_slice _ _ _).operates
  | concat => exact operates_attempt (creates_concat _ _).operates
  | reverse => exact operates_attempt (creates_reverse _).operates
  | indexOf => exact operates_indexOf _ _
  | includes => exact operates_attempt (creates_includes _ _).operates
  | sort => exact operates_settle (operates_sort calls _ _)
  | range => exact operates_settle (operates_range _ _ _)
  | charAt => exact operates_attempt (operates_charAt _ _)
  | substr => exact operates_attempt (creates_substr _ _ _).operates
  | replace => exact operates_attempt (creates_replace _ _ _).operates
  | split => exact operates_attempt (creates_split _ _).operates
  | join => exact operates_attempt (creates_join _ _).operates
  | trim => exact operates_attempt (creates_mapText _ _ _).operates
  | upper => exact operates_attempt (creates_mapText _ _ _).operates
  | lower => exact operates_attempt (creates_mapText _ _ _).operates
  | startsWith => exact operates_attempt (creates_compareTexts _ _ _ _).operates
  | endsWith => exact operates_attempt (creates_compareTexts _ _ _ _).operates
  | contains => exact operates_attempt (creates_compareTexts _ _ _ _).operates
  | keys => exact operates_attempt (creates_keys _).operates
  | values => exact operates_attempt (creates_values _).operates
  | entries => exact operates_attempt (creates_entries _).operates
  | hasField =>
    exact operates_withKey _ _ _ fun _ _ => operates_attempt (creates_hasField _ _).operates
  | deleteField => exact operates_withKey _ _ _ fun _ _ => operates_attempt (operates_deleteField _ _)
  | merge => exact operates_attempt (creates_merge _ _).operates
  | clone => exact Run.operates_heap (HeapM.operates_of_returns fun _ _ => returns_shallowClone _)
  | deepClone => exact Run.operates_heap (HeapM.operates_of_returns fun _ _ => returns_deepClone _)
  | toJSON => exact operates_attempt (creates_encode _).operates
  | parseJSON => exact operates_attempt (creates_decode _).operates
  | abs => exact operates_attempt (creates_mapNumber _ _ _).operates
  | floor => exact operates_attempt (creates_mapNumber _ _ _).operates
  | ceil => exact operates_attempt (creates_mapNumber _ _ _).operates
  | round =>
    rw [Builtin.run]
    split
    · exact operates_attempt (creates_mapNumbers _ _ _ _).operates
    · exact operates_attempt (creates_mapNumber _ _ _).operates
  | sqrt => exact operates_attempt (creates_sqrt _).operates
  | pow => exact operates_attempt (creates_pow _ _).operates
  | min => exact operates_attempt (creates_mapNumbers _ _ _ _).operates
  | max => exact operates_attempt (creates_mapNumbers _ _ _ _).operates
  | clamp => exact operates_attempt (creates_clamp _ _ _).operates
  | isNaN => exact operates_attempt (creates_isNaN _).operates
  | isFinite => exact operates_attempt (creates_isFinite _).operates
  | random => exact operates_settle System.operates_random
  | now => exact operates_settle System.operates_now
  | time => exact operates_settle System.operates_time
  | date => exact operates_settle System.operates_date
  | sleep => exact operates_attempt (System.operates_sleep _)
  | exit => exact System.operates_exit _
  | getEnv => exact operates_settle (Action.operates_environment (System.operates_getEnv _))
  | setEnv => exact operates_settle (Action.operates_environment (System.operates_setEnv _ _))
  | environment => exact operates_settle (Action.operates_environment System.operates_environment)
  | assert => exact System.operates_assert _ _
  | isOk => exact System.operates_isOk
  | lastError => exact System.operates_lastError
  | lastStatus => exact System.operates_lastStatus
  | clearError => exact System.operates_clearError
  | makeError => exact operates_attempt (creates_makeError _ _ _).operates
  | errorObject => exact System.operates_errorObject
  | readFile => exact operates_settle (Action.operates_files (operates_readFile _))
  | writeFile => exact operates_settle (Action.operates_files (operates_writeFile _ _))
  | appendFile => exact operates_settle (Action.operates_files (operates_appendFile _ _))
  | fileExists => exact operates_settle (Action.operates_files (operates_fileExists _))
  | dirExists => exact operates_settle (Action.operates_files (operates_dirExists _))
  | deleteFile => exact operates_settle (Action.operates_files (operates_deleteFile _))
  | getFileSize => exact operates_settle (Action.operates_files (operates_getFileSize _))
  | readBytes => exact operates_settle (Action.operates_files (operates_readBytes _))
  | writeBytes => exact operates_settle (Action.operates_files (operates_writeBytes _ _))
  | readLines => exact operates_settle (Action.operates_files (operates_readLines _))
  | renameFile => exact operates_settle (Action.operates_files (operates_renameFile _ _))
  | copyFile => exact operates_settle (Action.operates_files (operates_copyFile _ _))
  | createDir => exact operates_settle (Action.operates_files (operates_createDir _))
  | removeDir => exact operates_settle (Action.operates_files (operates_removeDir _))
  | listDir => exact operates_settle (Action.operates_files (operates_listDir _))
  | openFile => exact operates_settle (Action.operates_files (operates_openFile _ _))
  | closeFile => exact operates_attempt (operates_closeFile _)

/-! ## Sample bodies -/

namespace Routine

theorem operates_body (r : Routine) : Body.Operates r.body := by
  intro call args calls
  have answer (x : Run Value) (operates : x.Operates) :
      (do return some (← x) : Run (Option Value)).Operates :=
    operates.bind fun _ => Run.operates_pure _
  have sub (x y : Value) : (liftM (Value.sub x y) : Run Value).Operates :=
    Run.operates_heap (Value.creates_arithmetic _ _ _).operates
  have list (items : List Value) : (liftM (Value.ofList items) : Run Value).Operates :=
    Run.operates_heap (HeapM.creates_ofList items).operates
  have number (x : Float) : (liftM (Value.ofNumber x) : Run Value).Operates :=
    Run.operates_heap (HeapM.creates_ofNumber x).operates
  have head (v : Value) : (liftM (headOf v) : Run Value).Operates :=
    Run.operates_heap ((HeapM.preserves_observe _).bind fun _ => HeapM.preserves_pure _).operates
  cases r with
  | echo => exact answer _ (list _)
  | first => exact Run.operates_pure _
  | last => exact Run.operates_pure _
  | noop => exact Run.operates_pure _
  | sub => exact answer _ (sub _ _)
  | rsub => exact answer _ (sub _ _)
  | logSub =>
    exact (list _).bind fun _ => (Run.operates_heap (operates_append _ _)).bind fun _ =>
      answer _ (sub _ _)
  | byFirst => exact (head _).bind fun _ => (head _).bind fun _ => answer _ (sub _ _)
  | nan => exact answer _ (number _)
  | failing =>
    exact (Run.operates_setStatus _).bind fun _ =>
      answer _ (Run.operates_heap (HeapM.creates_ofText _).operates)
  | nameField => exact answer _ (operates_attempt (Value.operates_getField _ _))
  | bump =>
    exact (Run.operates_observe _).bind fun _ => (number _).bind fun _ =>
      (Run.operates_heap (Value.creates_add _ _).operates).bind fun _ =>
      (Run.operates_heap (HeapM.operates_writeBox _ _)).bind fun _ => Run.operates_pure _
  | factorial =>
    refine (Run.operates_observe _).bind fun p => ?_
    dsimp only
    split
    · exact answer _ (number _)
    · exact (number _).bind fun _ => (calls _ _).bind fun _ =>
        answer _ (Run.operates_heap (Value.creates_arithmetic _ _ _).operates)
  | apply => exact answer _ (calls _ _)
  | putN => exact answer _ (operates_attempt (Value.operates_setField _ _ _))
  | foreignAdd => exact answer _ (Run.operates_heap (Value.creates_add _ _).operates)
  | foreignNone => exact Run.operates_pure _
  | foreignEcho => exact answer _ (list _)
  | foreignFirst => exact Run.operates_pure _

theorem operates_code : Code.Operates code := by
  intro entry
  cases entry with
  | builtin b => exact b.operates_body
  | native index => exact operates_body _
  | foreign index => exact operates_body _

end Routine

end ValueMachine
