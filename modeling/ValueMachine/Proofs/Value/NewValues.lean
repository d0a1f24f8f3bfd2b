import ValueMachine.Proofs.Machine.Preserving
import ValueMachine.Value.Errors
import ValueMachine.Value.Json
import ValueMachine.Value.Numbers
import ValueMachine.Value.Objects
import ValueMachine.Value.Texts

/-!
# Operations that answer new values

The operations here leave every cell as it is and answer a value that did not exist, whether they
succeed or fail. Each proof follows the operation step by step.
-/

namespace ValueMachine.Value

open HeapM (creates_nullOf creates_ofArray creates_ofChars creates_ofList creates_ofNat
  creates_ofNumber creates_ofText)
open Attempt (Creates creates_bool creates_fail_of creates_failNull creates_lift
  preserves_arrayArg preserves_fail preserves_get preserves_lift preserves_mapM
  preserves_numberArg preserves_payloadOf preserves_pure preserves_read preserves_require
  preserves_textArg)

/-! ## Arrays -/

theorem creates_len (v : Value) : Creates (len v) := by
  refine (preserves_payloadOf v).creates fun p => ?_
  split <;> first | exact creates_ofNat _ | exact creates_failNull _ _

theorem creates_push (array item : Value) : Creates (push array item) :=
  (preserves_arrayArg _ _ _).creates fun _ => creates_ofArray _

theorem creates_unshift (array item : Value) : Creates (unshift array item) :=
  (preserves_arrayArg _ _ _).creates fun _ => creates_ofArray _

theorem creates_pop (array : Value) : Creates (pop array) := by
  refine (preserves_arrayArg _ _ _).creates fun items => ?_
  split
  · exact creates_failNull _ _
  · exact creates_ofArray _

theorem creates_shift (array : Value) : Creates (shift array) := by
  refine (preserves_arrayArg _ _ _).creates fun items => ?_
  split
  · exact creates_failNull _ _
  · exact creates_ofArray _

theorem creates_slice (array start stop : Value) : Creates (slice array start stop) :=
  (preserves_arrayArg _ _ _).creates fun _ => (preserves_payloadOf _).creates fun _ =>
    (preserves_payloadOf _).creates fun _ => creates_ofArray _

theorem creates_concat (left right : Value) : Creates (concat left right) := by
  refine (preserves_payloadOf _).creates fun p => (preserves_payloadOf _).creates fun q => ?_
  split
  · exact creates_ofArray _
  · exact creates_failNull _ _

theorem creates_spreadArray (target source : Value) : Creates (spreadArray target source) :=
  (preserves_payloadOf _).creates fun _ => (preserves_payloadOf _).creates fun _ =>
    creates_ofArray _

theorem creates_reverse (array : Value) : Creates (reverse array) :=
  (preserves_arrayArg _ _ _).creates fun _ => creates_ofArray _

theorem creates_elementIndexOf (array needle : Value) : Creates (elementIndexOf array needle) := by
  refine (preserves_arrayArg _ _ _).creates fun _ => preserves_get.creates fun h => ?_
  split
  · exact creates_ofNat _
  · exact creates_lift (creates_ofNumber _)

theorem creates_includes (array needle : Value) : Creates (includes array needle) :=
  (preserves_arrayArg _ _ _).creates fun _ => preserves_get.creates fun _ => creates_bool _

theorem preserves_rangeArgs (start stop step : Value) :
    Attempt.Preserves (rangeArgs start stop step) := by
  refine (preserves_numberArg _ _ _ _).bind fun first =>
    (preserves_numberArg _ _ _ _).bind fun last => (preserves_payloadOf _).bind fun p => ?_
  have close (width : Float) : Attempt.Preserves
      (if width == 0.0 then fail .zeroStep .null else pure (first, last, width)) := by
    split
    · exact preserves_fail _ Heap.makes_null
    · exact preserves_pure _
  dsimp only
  split
  · exact (preserves_pure _).bind close
  · exact (preserves_numberArg _ _ _ _).bind close

theorem creates_rangeOf (start step : Float) (count : Nat) : (rangeOf start step count).Creates :=
  (HeapM.preserves_mapM _ _ fun _ _ => (creates_ofNumber _).preserves).creates fun _ =>
    creates_ofList _

/-! ## Objects -/

/-- The computation leaves every cell as it is; if it answers a value, then a new one. -/
def CreatesAny (x : HeapM (Option Value)) : Prop :=
  ∀ config (h : Heap), h.Adds (x.perform config h).2 ∧
    ∀ v, (x.perform config h).1 = some v → h.Makes (x.perform config h).2 v

theorem createsAny_none : CreatesAny (pure none) := fun _ h => ⟨.refl h, nofun⟩

theorem createsAny_some {x : HeapM Value} (creates : x.Creates) :
    CreatesAny (do return some (← x)) := by
  intro config h
  refine ⟨(creates config h).1, fun v eq => ?_⟩
  cases eq
  exact (creates config h).2

/-- What is read off the heap first changes nothing. -/
theorem createsAny_get {f : Heap → HeapM (Option Value)} (next : ∀ h, CreatesAny (f h)) :
    CreatesAny (get >>= f) := fun config h => next h config h

theorem createsAny_virtualProperty? (object : Value) (e : Extension) (name : String) :
    CreatesAny (virtualProperty? object e name) := by
  unfold virtualProperty?
  split
  · exact createsAny_some (HeapM.creates_ofStaticText _)
  · cases e with
    | buffer bytes =>
      dsimp only
      split
      · exact createsAny_some (creates_ofNat _)
      · exact createsAny_get fun _ => createsAny_some (creates_ofNat _)
      · exact createsAny_none
    | fileHandle file =>
      dsimp only
      split
      · exact createsAny_some (creates_ofText _)
      · exact createsAny_some (creates_ofText _)
      · exact createsAny_some (HeapM.creates_pure (Heap.makes_bool file.isOpen))
      · exact createsAny_some (creates_ofNat _)
      · exact createsAny_none
    | error error =>
      dsimp only
      split
      · exact createsAny_some (creates_ofText _)
      · exact createsAny_some (creates_ofNumber _)
      · exact createsAny_some (creates_ofText _)
      · exact createsAny_none

theorem preserves_entriesArg (object : Value) (operation : String) :
    Attempt.Preserves (entriesArg object operation) :=
  (preserves_require _ _ _ _ (creates_nullOf _)).bind fun _ => preserves_pure _

theorem creates_hasField (object : Value) (key : String) : Creates (hasField object key) := by
  refine (preserves_payloadOf _).creates fun p => ?_
  split
  · exact (preserves_lift fun config h => (createsAny_virtualProperty? _ _ _ config h).1).creates
      fun _ => creates_bool _
  · exact creates_bool _
  · exact creates_bool _

theorem creates_keys (object : Value) : Creates (keys object) := by
  refine (preserves_entriesArg _ _).creates fun entries => ?_
  exact (preserves_mapM _ _ fun _ _ => (creates_lift (creates_ofText _)).preserves).creates
    fun _ => creates_ofList _

theorem creates_values (object : Value) : Creates (values object) :=
  (preserves_entriesArg _ _).creates fun _ => creates_ofList _

theorem creates_entries (object : Value) : Creates (entries object) := by
  refine (preserves_entriesArg _ _).creates fun entries => ?_
  refine (preserves_mapM _ _ fun p _ => Creates.preserves ?_).creates fun _ => creates_ofList _
  exact (creates_lift (creates_ofText _)).preserves.creates fun _ => creates_ofList _

theorem preserves_mergeSide (side : Value) : Attempt.Preserves (mergeSide side) := by
  refine (preserves_payloadOf _).bind fun p => ?_
  split
  · exact preserves_pure _
  · exact preserves_entriesArg _ _

theorem creates_merge (left right : Value) : Creates (merge left right) :=
  (preserves_mergeSide _).creates fun _ => (preserves_mergeSide _).creates fun _ =>
    HeapM.creates_ofEntries _

/-! ## Texts -/

theorem preserves_charsArg (v : Value) (operation requirement : String) {fallback : HeapM Value}
    (creates : fallback.Creates) :
    Attempt.Preserves (charsArg v operation requirement fallback) :=
  (preserves_require _ _ _ _ creates).bind fun _ => preserves_pure _

theorem creates_substr (target start length : Value) : Creates (substr target start length) := by
  refine (preserves_charsArg _ _ _ (creates_ofText _)).creates fun text =>
    (preserves_require _ _ _ _ (creates_ofText _)).creates fun first =>
    (preserves_payloadOf _).creates fun p => ?_
  split
  · exact creates_ofText _
  · exact creates_ofChars _

theorem creates_partIndexOf (target part : Value) : Creates (partIndexOf target part) := by
  refine (preserves_payloadOf _).creates fun p => (preserves_payloadOf _).creates fun q => ?_
  split
  · split
    · exact creates_ofNat _
    · exact creates_lift (creates_ofNumber _)
  · exact creates_fail_of (creates_ofNumber _) _

theorem creates_compareTexts (operation : String) (test : List Char → List Char → Bool)
    (target other : Value) : Creates (compareTexts operation test target other) :=
  have no : (pure (.bool false) : HeapM Value).Creates := HeapM.creates_pure (Heap.makes_bool _)
  (preserves_charsArg _ _ _ no).creates fun _ => (preserves_charsArg _ _ _ no).creates fun _ =>
    creates_bool _

theorem creates_replace (target part replacement : Value) :
    Creates (replace target part replacement) := by
  refine (preserves_payloadOf _).creates fun p => (preserves_payloadOf _).creates fun q =>
    (preserves_payloadOf _).creates fun r => ?_
  split
  · split
    · exact creates_ofText _
    · exact creates_ofChars _
  · exact creates_fail_of (creates_ofText _) _

theorem creates_mapText (operation : String) (change : List Char → List Char) (target : Value) :
    Creates (mapText operation change target) :=
  (preserves_charsArg _ _ _ (creates_ofText _)).creates fun _ => creates_ofChars _

theorem creates_split (target delimiter : Value) : Creates (split target delimiter) := by
  refine (preserves_charsArg _ _ _ (creates_nullOf _)).creates fun text =>
    (preserves_payloadOf _).creates fun p => ?_
  exact (preserves_mapM _ _ fun _ _ => (creates_lift (creates_ofChars _)).preserves).creates
    fun _ => creates_ofList _

theorem creates_join (array separator : Value) : Creates (join array separator) :=
  (preserves_require _ _ _ _ (creates_ofText _)).creates fun _ =>
    (preserves_payloadOf _).creates fun _ => preserves_get.creates fun _ => creates_ofChars _

/-! ## Numbers -/

theorem creates_mapNumber (operation : String) (f : Float → Float) (v : Value) :
    Creates (mapNumber operation f v) :=
  (preserves_numberArg _ _ _ _).creates fun _ => creates_ofNumber _

theorem creates_sqrt (v : Value) : Creates (sqrt v) := by
  refine (preserves_numberArg _ _ _ _).creates fun x => ?_
  split
  · exact creates_failNull _ _
  · exact creates_ofNumber _

theorem creates_isNaN (v : Value) : Creates (isNaN v) :=
  (preserves_payloadOf _).creates fun _ => creates_bool _

theorem creates_isFinite (v : Value) : Creates (isFinite v) :=
  (preserves_payloadOf _).creates fun _ => creates_bool _

theorem creates_mapNumbers (operation : String) (f : Float → Float → Float) (a b : Value) :
    Creates (mapNumbers operation f a b) :=
  (preserves_numberArg _ _ _ _).creates fun _ => (preserves_numberArg _ _ _ _).creates fun _ =>
    creates_ofNumber _

theorem creates_pow (base exponent : Value) : Creates (pow base exponent) :=
  (preserves_numberArg _ _ _ _).creates fun _ => (preserves_numberArg _ _ _ _).creates fun _ =>
    creates_ofNumber _

theorem creates_clamp (v low high : Value) : Creates (clamp v low high) := by
  refine (preserves_numberArg _ _ _ _).creates fun x =>
    (preserves_numberArg _ _ _ _).creates fun low =>
    (preserves_numberArg _ _ _ _).creates fun high => ?_
  split
  · exact creates_failNull _ _
  · exact creates_ofNumber _

/-! ## Coercion -/

theorem creates_typeOf (v : Value) : (typeOf v).Creates :=
  HeapM.preserves_get.creates fun _ => HeapM.creates_ofStaticText _

theorem creates_toBl (v : Value) : Creates (toBl v) :=
  preserves_get.creates fun _ => creates_bool _

theorem creates_kindIs (test : Kind → Bool) (v : Value) : Creates (kindIs test v) :=
  preserves_get.creates fun _ => creates_bool _

/-! ## Operators -/

theorem creates_arithmetic (f : Float → Float → Float) (a b : Value) :
    (arithmetic f a b).Creates :=
  HeapM.preserves_get.creates fun _ => creates_ofNumber _

theorem creates_add (a b : Value) : (add a b).Creates := by
  refine HeapM.preserves_get.creates fun h => ?_
  split
  · exact creates_ofText _
  · exact creates_arithmetic _ _ _

theorem creates_neg (v : Value) : (neg v).Creates :=
  HeapM.preserves_get.creates fun _ => creates_ofNumber _

theorem creates_comparison (test : Heap → Bool) : (comparison test).Creates :=
  HeapM.preserves_get.creates fun _ => HeapM.creates_pure (Heap.makes_bool _)

/-! ## JSON and errors -/

theorem creates_toJson (v : Value) : (toJson v).Creates :=
  HeapM.preserves_get.creates fun _ => HeapM.preserves_read.creates fun _ => creates_ofChars _

theorem creates_encode (v : Value) : Creates (encode v) := creates_lift (creates_toJson v)

mutual

theorem creates_ofDocument (d : Json.Document) : (ofDocument d).Creates := by
  cases d with
  | null => exact HeapM.creates_pure Heap.makes_null
  | bool b => exact HeapM.creates_pure (Heap.makes_bool b)
  | number x => exact creates_ofNumber x
  | text content => exact creates_ofText content
  | array items => exact (preserves_ofDocuments items).creates fun _ => creates_ofList _
  | object members =>
    exact (preserves_ofMembers members).creates fun _ => HeapM.creates_ofEntries _

theorem preserves_ofDocuments (items : List Json.Document) : (ofDocuments items).Preserves := by
  cases items with
  | nil => exact HeapM.preserves_pure _
  | cons item items =>
    exact (creates_ofDocument item).preserves.bind fun _ =>
      (preserves_ofDocuments items).bind fun _ => HeapM.preserves_pure _

theorem preserves_ofMembers (members : List (String × Json.Document)) :
    (ofMembers members).Preserves := by
  cases members with
  | nil => exact HeapM.preserves_pure _
  | cons member members =>
    exact (creates_ofDocument member.2).preserves.bind fun _ =>
      (preserves_ofMembers members).bind fun _ => HeapM.preserves_pure _

end

theorem creates_decode (text : Value) : Creates (decode text) := by
  refine (preserves_require _ _ _ _ (creates_nullOf _)).creates fun content =>
    preserves_read.creates fun config => ?_
  split
  · exact creates_failNull _ _
  · refine preserves_get.creates fun _ => ?_
    split
    · exact creates_lift (creates_ofDocument _)
    · exact creates_failNull _ _

theorem creates_makeError (message code errorType : Value) :
    Creates (makeError message code errorType) := by
  refine (preserves_textArg _ _ _ _).creates fun message =>
    (preserves_payloadOf _).creates fun p => (preserves_payloadOf _).creates fun q => ?_
  have close (errorType : String) : Creates
      (ofExtension (.error ⟨message, p.number?.elim 0 Number.toInt32, errorType⟩)) :=
    HeapM.creates_ofExtension _
  dsimp only
  split
  · exact (preserves_pure _).creates close
  · exact (preserves_textArg _ _ _ _).creates close

end ValueMachine.Value
