import ValueMachine.Proofs.Number.Sums
import ValueMachine.Proofs.Text.Offsets
import ValueMachine.Proofs.Value.BoxedOperands
import ValueMachine.Proofs.Value.NewValues
import ValueMachine.Proofs.Value.NumbersThroughTexts

/-!
# Positions in texts

The operations on texts agree on positions: what `indexOf` finds is where `substr` cuts the part out,
where `startsWith` sees it, and where `replace` puts something else.

Results:
* `Attempt.Answers` and what the operations on texts answer;
* `search_ends`: what a search followed by cuts answers;
* `search_agrees`: how the answers fit together.
-/

namespace ValueMachine

open Number (twoPow)
open Text (IsFirst OccursAt)

/-! ## Answers -/

/-- The computation succeeds with a value that holds the given payload, and leaves every cell as it
is. -/
def Attempt.Answers (x : Attempt Value) (p : Payload) (config : Config) (h : Heap) : Prop :=
  match HeapM.perform x.run config h with
  | (.ok w, h') => h'.payload w = p ∧ h.Grows h'
  | (.error _, _) => False

namespace Attempt

variable {α : Type} {p : Payload} {config : Config} {h : Heap} {v : Value}

theorem answers_pure (is : h.payload v = p) : Answers (pure v) p config h := ⟨is, .refl h⟩

theorem answers_payloadOf {f : Payload → Attempt Value} :
    Answers (liftM (payloadOf v) >>= f) p config h ↔ Answers (f (h.payload v)) p config h := Iff.rfl

theorem answers_get {f : Heap → Attempt Value} :
    Answers (get >>= f) p config h ↔ Answers (f h) p config h := Iff.rfl

theorem answers_require {form : Payload → Option α} {content : α}
    (is : form (h.payload v) = some content)
    {operation requirement : String} {fallback : HeapM Value} {f : α → Attempt Value}
    (next : Answers (f content) p config h) :
    Answers (require form v operation requirement fallback >>= f) p config h := by
  unfold Answers
  rw [bind_ok (perform_require form config is operation requirement fallback)]
  exact next

theorem answers_ofText (content : String) :
    Answers (liftM (Value.ofText content)) (.text false content) config h := by
  refine ⟨congrArg Cell.payload (h.cell_alloc_self (.ofPayload (.text false content))), ?_⟩
  exact h.grows_alloc _

theorem answers_ofNumber (x : Float) :
    Answers (liftM (Value.ofNumber x)) (.number x) config h := by
  refine ⟨payload_ofNumber x config h, ?_⟩
  exact (HeapM.creates_ofNumber x config h).1.grows

theorem answers_ofNat (n : Nat) :
    Answers (liftM (Value.ofNat n)) (.number (Number.ofNat n)) config h :=
  answers_ofNumber (Number.ofNat n)

end Attempt

namespace Value

variable {config : Config} {h : Heap} {s n r i l : Value} {cs cn cr : Bool}
  {text part new : String} {x : Float}

/-! ## The operations -/

/-- The position of a part as a number; minus one if the part is nowhere. -/
def positionNumber (part text : List Char) : Float :=
  match Text.position? part text with
  | some place => Number.ofNat place
  | none => -1.0

/-- The characters from a position on, cut to a number of them if one is given. -/
def cutOut (text : List Char) (first : Int) (count : Option Int) : List Char :=
  if first < 0 then []
  else (text.drop first.toNat).take (count.elim text.length Int.toNat)

theorem cutOut_natCast (chars : List Char) (place : Nat) (count : Option Int) :
    cutOut chars place count = (chars.drop place).take (count.elim chars.length Int.toNat) := by
  rw [cutOut, if_neg (by omega), Int.toNat_natCast]

theorem answers_partIndexOf (hs : h.payload s = .text cs text) (hn : h.payload n = .text cn part) :
    Attempt.Answers (partIndexOf s n) (.number (positionNumber part.toList text.toList)) config
      h := by
  rw [partIndexOf, Attempt.answers_payloadOf, Attempt.answers_payloadOf, hs, hn]
  show Attempt.Answers (match Text.position? part.toList text.toList with
    | some position => liftM (ofNat position)
    | none => liftM (ofNumber (-1.0))) _ config h
  rw [positionNumber]
  cases Text.position? part.toList text.toList with
  | some place => exact Attempt.answers_ofNat place
  | none => exact Attempt.answers_ofNumber _

theorem answers_charsArg {p : Payload} (hs : h.payload s = .text cs text)
    (operation requirement : String) (fallback : HeapM Value) {f : List Char → Attempt Value}
    (next : Attempt.Answers (f text.toList) p config h) :
    Attempt.Answers (charsArg s operation requirement fallback >>= f) p config h := by
  have is : (h.payload s).text? = some text := by rw [hs]; rfl
  have chars : HeapM.perform (charsArg s operation requirement fallback).run config h =
      (.ok text.toList, h) := by
    rw [charsArg, Attempt.bind_ok (perform_require _ config is operation requirement fallback)]
    rfl
  unfold Attempt.Answers
  rw [Attempt.bind_ok chars]
  exact next

theorem answers_compareTexts (operation : String) (test : List Char → List Char → Bool)
    (hs : h.payload s = .text cs text) (hn : h.payload n = .text cn part) :
    Attempt.Answers (compareTexts operation test s n) (.bool (test part.toList text.toList)) config
      h := by
  rw [compareTexts]
  apply answers_charsArg hs
  apply answers_charsArg hn
  exact Attempt.answers_pure rfl

theorem answers_len (hn : h.payload n = .text cn part) :
    Attempt.Answers (len n) (.number (Number.ofNat part.length)) config h := by
  rw [len, Attempt.answers_payloadOf, hn]
  exact Attempt.answers_ofNat _

/-- Past the end of a text there is nothing to cut out. -/
theorem cutOut_of_le {chars : List Char} {first : Int} (le : (chars.length : Int) - first ≤ 0)
    (count : Option Int) : cutOut chars first count = [] := by
  rw [cutOut, List.drop_of_length_le (by omega), List.take_nil, ite_self]

theorem answers_substr (hs : h.payload s = .text cs text) (hi : h.payload i = .number x) (l : Value) :
    Attempt.Answers (substr s i l) (.text false (.ofList (cutOut text.toList (Number.toInt64 x)
      ((h.payload l).number?.map Number.toInt64)))) config h := by
  have start : (h.payload i).number? = some x := by rw [hi]; rfl
  rw [substr]
  apply answers_charsArg hs
  apply Attempt.answers_require start
  rw [Attempt.answers_payloadOf]
  dsimp only
  generalize (h.payload l).number? = count
  generalize Number.toInt64 x = first
  generalize text.toList = chars
  by_cases negative : first < 0
  · rw [decide_eq_true negative, Bool.true_or, if_pos rfl, cutOut, if_pos negative]
    exact Attempt.answers_ofText _
  by_cases past : (chars.length : Int) - first ≤ 0
  · rw [decide_eq_true past, Bool.or_true, if_pos rfl, cutOut_of_le past]
    exact Attempt.answers_ofText _
  · rw [decide_eq_false negative, decide_eq_false past, Bool.or_self, if_neg Bool.false_ne_true,
      cutOut, if_neg negative, Text.part?_eq]
    cases count with
    | none =>
      have all : (chars.drop first.toNat).take ((chars.length : Int) - first).toNat =
          (chars.drop first.toNat).take chars.length := by
        rw [List.take_eq_take_iff, List.length_drop]
        omega
      rw [Option.elim_none, all]
      exact Attempt.answers_ofText _
    | some y => exact Attempt.answers_ofText _

theorem answers_replace (hs : h.payload s = .text cs text) (hn : h.payload n = .text cn part)
    (hr : h.payload r = .text cr new) :
    Attempt.Answers (replace s n r) (.text false (if part.isEmpty then text else
      .ofList (Text.replaceFirst part.toList new.toList text.toList))) config h := by
  rw [replace, Attempt.answers_payloadOf, Attempt.answers_payloadOf, Attempt.answers_payloadOf, hs,
    hn, hr]
  show Attempt.Answers (if part.isEmpty then liftM (ofText text) else
    liftM (ofChars (Text.replaceFirst part.toList new.toList text.toList))) _ config h
  split
  · exact Attempt.answers_ofText text
  · exact Attempt.answers_ofText _

end Value

/-! ## One operation after another -/

/-- What some handles are known to hold. -/
def Heap.Records (h : Heap) (known : List (Value × Payload)) : Prop :=
  ∀ v p, (v, p) ∈ known → h.payload v = p ∧ p ≠ .undefined

theorem Heap.records_nil (h : Heap) : h.Records [] := fun _ _ mem => absurd mem List.not_mem_nil

theorem Heap.Records.cons {h : Heap} {known : List (Value × Payload)} (records : h.Records known)
    {v : Value} {p : Payload} (is : h.payload v = p) (some : p ≠ .undefined) :
    h.Records ((v, p) :: known) := by
  intro w q mem
  obtain eq | mem := List.mem_cons.mp mem
  · obtain ⟨rfl, rfl⟩ := Prod.mk.inj eq
    exact ⟨is, some⟩
  · exact records w q mem

/-- What handles hold they go on holding. -/
theorem Heap.Records.mono {h h' : Heap} {known : List (Value × Payload)} (records : h.Records known)
    (grows : h.Grows h') : h'.Records known := by
  intro v p mem
  obtain ⟨rfl, some⟩ := records v p mem
  exact ⟨grows.payload_eq some, some⟩

section Steps

variable {β : Type} {m : Machine} {known : List (Value × Payload)} {p : Payload}
  {returns : β → Machine → Prop} {halts : Halt → Machine → Prop} {f : Value → Run β}

/-- An operation that answers, and what comes after it. -/
theorem Run.ends_answers {x : Attempt Value} (records : m.heap.Records known)
    (answers : Attempt.Answers x p m.config m.heap) (some : p ≠ .undefined)
    (next : ∀ w m', m'.status = .ok → m'.heap.Records ((w, p) :: known) →
      (f w).Ends m' returns halts) :
    (settle x >>= f).Ends m returns halts := by
  unfold Attempt.Answers at answers
  rw [Run.ends_bind]
  generalize run : HeapM.perform x.run m.config m.heap = outcome at answers
  obtain ⟨failure | w, h⟩ := outcome
  · exact answers.elim
  · exact Run.Ends.of_eq (settle_ok run)
      (next w _ rfl ((records.mono answers.2).cons answers.1 some))

/-- The sum of two numbers, and what comes after it. -/
theorem Run.ends_add {a b : Value} {x y : Float} (records : m.heap.Records known)
    (ha : m.heap.payload a = .number x) (hb : m.heap.payload b = .number y)
    (next : ∀ w m', m'.status = m.status → m'.heap.Records ((w, .number (x + y)) :: known) →
      (f w).Ends m' returns halts) :
    Run.Ends (liftM (Value.add a b) >>= f) m returns halts := by
  have performed : (Value.add a b).perform m.config m.heap =
      (Value.ofNumber (x + y)).perform m.config m.heap := by
    rw [Operator.perform_add, ha, hb, if_neg (by simp [Payload.text?]), Operator.perform_arithmetic,
      Heap.toNumber_of_number ha, Heap.toNumber_of_number hb]
  have run : (liftM (Value.add a b) : Run Value).run.run m =
      (.ok ((Value.add a b).perform m.config m.heap).1,
        { m with heap := ((Value.add a b).perform m.config m.heap).2 }) := rfl
  rw [Run.ends_bind]
  refine Run.Ends.of_eq run (next _ _ rfl ?_)
  rw [performed]
  exact (records.mono (HeapM.creates_ofNumber _ _ _).1.grows).cons (payload_ofNumber _ _ _) (by simp)

/-- In a text, a part is looked for. -/
theorem Run.ends_indexOf {s n : Value} {cs : Bool} {text : String}
    (hs : m.heap.payload s = .text cs text) :
    (Value.indexOf s n >>= f).Ends m returns halts ↔
      (settle (Value.partIndexOf s n) >>= f).Ends m returns halts := by
  rw [Run.ends_bind, Run.ends_bind, Value.indexOf]
  show Run.Ends (if (m.heap.payload s).array?.isSome then _ else _) m _ _ ↔ _
  rw [hs]
  rfl

end Steps

/-! ## Searching and cutting -/

/-- The answers of a search for a part, of the cuts around it, and of its replacement. -/
structure Search where
  /-- Where the part is. -/
  position : Value
  /-- Whether it is anywhere. -/
  found : Value
  /-- As many characters as the part has, from its position on. -/
  cut : Value
  /-- Whether the text from the position on starts with the part. -/
  starts : Value
  /-- What stands before the position. -/
  before : Value
  /-- What stands from the position and the length of the part on. -/
  after : Value
  /-- The text with another part instead. -/
  replaced : Value
  /-- Whether the text starts with the part. -/
  opens : Value

/-- Looks for `n` in `s`, cuts `s` there, and puts `r` there. -/
def search (s n r : Value) : Run Search := do
  let position ← Value.indexOf s n
  let found ← settle (Value.contains s n)
  let length ← settle (Value.len n)
  let cut ← settle (Value.substr s position length)
  let rest ← settle (Value.substr s position .undefined)
  let starts ← settle (Value.startsWith rest n)
  let before ← settle (Value.substr s (.small 0) position)
  let next ← Value.add position length
  let after ← settle (Value.substr s next .undefined)
  let replaced ← settle (Value.replace s n r)
  let opens ← settle (Value.startsWith s n)
  return { position, found, cut, starts, before, after, replaced, opens }

section Search

variable {m : Machine} {s n r : Value} {cs cn cr : Bool} {text part new : String}

/-- What the answers of a search hold. -/
structure Search.Holds (answers : Search) (h : Heap) (text part new : String) : Prop where
  position : h.payload answers.position =
    .number (Value.positionNumber part.toList text.toList)
  found : h.payload answers.found = .bool (Text.contains part.toList text.toList)
  cut : h.payload answers.cut = .text false (.ofList (Value.cutOut text.toList
    (Number.toInt64 (Value.positionNumber part.toList text.toList))
    (some (Number.toInt64 (Number.ofNat part.length)))))
  starts : h.payload answers.starts = .bool (part.toList.isPrefixOf (Value.cutOut text.toList
    (Number.toInt64 (Value.positionNumber part.toList text.toList)) none))
  before : h.payload answers.before = .text false (.ofList (Value.cutOut text.toList 0
    (some (Number.toInt64 (Value.positionNumber part.toList text.toList)))))
  after : h.payload answers.after = .text false (.ofList (Value.cutOut text.toList
    (Number.toInt64 (Value.positionNumber part.toList text.toList + Number.ofNat part.length)) none))
  replaced : h.payload answers.replaced = .text false (if part.isEmpty then text else
    .ofList (Text.replaceFirst part.toList new.toList text.toList))
  opens : h.payload answers.opens = .bool (part.toList.isPrefixOf text.toList)

theorem search_ends (hs : m.heap.payload s = .text cs text) (hn : m.heap.payload n = .text cn part)
    (hr : m.heap.payload r = .text cr new) :
    (search s n r).Ends m (fun answers m' => m'.status = .ok ∧ answers.Holds m'.heap text part new)
      fun _ _ => False := by
  have zero : Number.toInt64 (Number.ofInt 0) = 0 := by decide +kernel
  have text_at {h : Heap} {known : List (Value × Payload)} (records : h.Records known)
      (mem : (s, .text cs text) ∈ known) : h.payload s = .text cs text := (records s _ mem).1
  have part_at {h : Heap} {known : List (Value × Payload)} (records : h.Records known)
      (mem : (n, .text cn part) ∈ known) : h.payload n = .text cn part := (records n _ mem).1
  have records := ((m.heap.records_nil.cons hs nofun).cons hn nofun).cons hr nofun
  generalize place : Value.positionNumber part.toList text.toList = x
  have nothing (h : Heap) : (h.payload .undefined).number? = none := rfl
  have something (y : Float) : (Payload.number y).number? = some y := rfl
  have position_at {h : Heap} {known : List (Value × Payload)} {v : Value} (records : h.Records known)
      (mem : (v, .number x) ∈ known) : h.payload v = .number x := (records v _ mem).1
  rw [search]
  rw [Run.ends_indexOf hs]
  apply Run.ends_answers records (Value.answers_partIndexOf hs hn) nofun
  rw [place]
  intro position m₁ _ records
  apply Run.ends_answers records (Value.answers_compareTexts _ _ (text_at records (by simp))
    (part_at records (by simp))) nofun
  intro found m₂ _ records
  apply Run.ends_answers records (Value.answers_len (part_at records (by simp))) nofun
  intro length m₃ _ records
  apply Run.ends_answers records (Value.answers_substr (text_at records (by simp))
    (position_at records (by simp)) length) nofun
  rw [(records length (.number (Number.ofNat part.length)) (by simp)).1, something, Option.map_some]
  intro cut m₄ _ records
  apply Run.ends_answers records (Value.answers_substr (text_at records (by simp))
    (position_at records (by simp)) .undefined) nofun
  rw [nothing, Option.map_none]
  intro rest m₅ _ records
  apply Run.ends_answers records (Value.answers_compareTexts _ _
    (records rest (.text _ _) List.mem_cons_self).1 (part_at records (by simp))) nofun
  rw [String.toList_ofList]
  intro starts m₆ _ records
  apply Run.ends_answers records (Value.answers_substr (text_at records (by simp))
    (show m₆.heap.payload (.small 0) = .number (Number.ofInt 0) from rfl) position) nofun
  rw [(records position (.number x) (by simp)).1, something, Option.map_some, zero]
  intro before m₇ _ records
  apply Run.ends_add records (position_at records (by simp))
    (records length (.number (Number.ofNat part.length)) (by simp)).1
  intro next m₈ _ records
  apply Run.ends_answers records (Value.answers_substr (text_at records (by simp))
    (records next (.number _) List.mem_cons_self).1 .undefined) nofun
  rw [nothing, Option.map_none]
  intro after m₉ _ records
  apply Run.ends_answers records (Value.answers_replace (text_at records (by simp))
    (part_at records (by simp)) (records r (.text cr new) (by simp)).1) nofun
  intro replaced m₁₀ _ records
  apply Run.ends_answers records (Value.answers_compareTexts _ _ (text_at records (by simp))
    (part_at records (by simp))) nofun
  intro opens m' ok records
  subst place
  refine ⟨ok, ?_, ?_, ?_, ?_, ?_, ?_, ?_, ?_⟩ <;> exact (records _ _ (by simp)).1

/-- The answers where the part is nowhere. -/
theorem Search.Holds.absent {answers : Search} {h : Heap} (holds : answers.Holds h text part new)
    (absent : ∀ place, ¬OccursAt part.toList text.toList place) :
    h.payload answers.position = .number (-1.0) ∧ h.payload answers.found = .bool false ∧
      h.payload answers.starts = .bool false ∧
      h.payload answers.replaced = .text false text := by
  have nowhere : Value.positionNumber part.toList text.toList = -1.0 := by
    rw [Value.positionNumber, Text.position?_of_absent absent]
  have not : Text.contains part.toList text.toList = false :=
    Bool.eq_false_iff.mpr fun found => (Text.contains_iff.mp found).elim absent
  have nothing : Value.cutOut text.toList (Number.toInt64 (-1.0)) none = [] :=
    if_pos (by decide +kernel)
  -- the empty part is everywhere
  have some : part.toList.isPrefixOf [] = false := by
    cases chars : part.toList with
    | nil => exact absurd ⟨[], text.toList, by rw [chars]; rfl, rfl⟩ (absent 0)
    | cons c rest => rfl
  refine ⟨?_, ?_, ?_, ?_⟩
  · rw [holds.position, nowhere]
  · rw [holds.found, not]
  · rw [holds.starts, nowhere, nothing, some]
  · rw [holds.replaced, Text.replaceFirst_of_absent absent, String.ofList_toList, ite_self]

/-- The answers where the part is somewhere. -/
theorem Search.Holds.present {answers : Search} {h : Heap} (holds : answers.Holds h text part new)
    (fits : text.length ≤ twoPow 53) {place : Nat} (first : IsFirst part.toList text.toList place) :
    h.payload answers.position = .number (Number.ofNat place) ∧
      h.payload answers.found = .bool true ∧ h.payload answers.cut = .text false part ∧
      h.payload answers.starts = .bool true ∧
      ∃ before after, h.payload answers.before = .text false before ∧
        h.payload answers.after = .text false after ∧
        (part ≠ "" → h.payload answers.replaced = .text false (before ++ new ++ after)) := by
  have within := first.occurs.le
  rw [String.length_toList, String.length_toList] at within
  have somewhere : Value.positionNumber part.toList text.toList = Number.ofNat place := by
    rw [Value.positionNumber, Text.position?_of_isFirst first]
  have position : Number.toInt64 (Number.ofNat place) = place := Number.toInt64_ofNat (by omega)
  have length : Number.toInt64 (Number.ofNat part.length) = part.length :=
    Number.toInt64_ofNat (by omega)
  have next : Number.toInt64 (Number.ofNat place + Number.ofNat part.length) =
      (place + part.length : Nat) := by
    rw [Number.ofNat_add (by omega), Number.toInt64_ofNat (by omega)]
  have rest (k : Nat) : (text.toList.drop k).take text.toList.length = text.toList.drop k :=
    List.take_of_length_le (by rw [List.length_drop]; omega)
  refine ⟨?_, ?_, ?_, ?_, .ofList (text.toList.take place),
    .ofList (text.toList.drop (place + part.length)), ?_, ?_, fun some => ?_⟩
  · rw [holds.position, somewhere]
  · rw [holds.found, Text.contains_iff.mpr ⟨place, first.occurs⟩]
  · rw [holds.cut, somewhere, position, length, Value.cutOut_natCast, first.occurs.drop_eq,
      ← String.length_toList]
    simp
  · rw [holds.starts, somewhere, position, Value.cutOut_natCast, Option.elim_none, rest,
      first.occurs.drop_eq]
    simp
  · rw [holds.before, somewhere, position, ← Int.natCast_zero, Value.cutOut_natCast]
    simp
  · rw [holds.after, somewhere, next, Value.cutOut_natCast, Option.elim_none, rest]
  · rw [holds.replaced, if_neg (by simpa using some), Text.replaceFirst_of_isFirst first,
      String.ofList_append, String.ofList_append, String.ofList_toList, String.length_toList]

/-- Whether the text starts with the part is whether the part is at its start. -/
theorem Search.Holds.exists_opens {answers : Search} {h : Heap}
    (holds : answers.Holds h text part new) :
    ∃ opens, h.payload answers.opens = .bool opens ∧
      (opens = true ↔ OccursAt part.toList text.toList 0) := by
  refine ⟨_, holds.opens, ?_⟩
  rw [List.isPrefixOf_iff_prefix]
  constructor
  · rintro ⟨rest, eq⟩
    exact ⟨[], rest, eq.symm, rfl⟩
  · rintro ⟨before, rest, eq, length⟩
    rw [List.length_eq_zero_iff.mp length, List.nil_append] at eq
    exact ⟨rest, eq.symm⟩

/-- The answers of a search fit together. The position is minus one exactly where the part is not
found; then the empty rest does not start with it, and nothing is replaced. Otherwise it is the first
position of the part: the part is cut out there, the text starts with it from there on, and replacing
it puts the new part between what is cut out before and after it. The text itself starts with the part
exactly where the part is at position zero. Every text is short enough for its positions to be exact
numbers. -/
theorem search_agrees (hs : m.heap.payload s = .text cs text)
    (hn : m.heap.payload n = .text cn part) (hr : m.heap.payload r = .text cr new)
    (fits : text.length ≤ twoPow 53) :
    (search s n r).Ends m (fun answers m' => m'.status = .ok ∧
      ∃ found, m'.heap.payload answers.found = .bool found ∧
        (found = true ↔ ∃ place, OccursAt part.toList text.toList place) ∧
        (m'.heap.payload answers.position = .number (-1.0) ↔ found = false) ∧
        (found = false → m'.heap.payload answers.starts = .bool false ∧
          m'.heap.payload answers.replaced = .text false text) ∧
        (found = true → ∃ place, IsFirst part.toList text.toList place ∧
          m'.heap.payload answers.position = .number (Number.ofNat place) ∧
          m'.heap.payload answers.cut = .text false part ∧
          m'.heap.payload answers.starts = .bool true ∧
          ∃ before after, m'.heap.payload answers.before = .text false before ∧
            m'.heap.payload answers.after = .text false after ∧
            (part ≠ "" → m'.heap.payload answers.replaced = .text false (before ++ new ++ after))) ∧
        ∃ opens, m'.heap.payload answers.opens = .bool opens ∧
          (opens = true ↔ OccursAt part.toList text.toList 0))
      fun _ _ => False := by
  apply (search_ends hs hn hr).mono
  rintro answers m' ⟨ok, holds⟩
  have opens := holds.exists_opens
  refine ⟨ok, ?_⟩
  by_cases absent : ∀ place, ¬OccursAt part.toList text.toList place
  · obtain ⟨position, found, starts, replaced⟩ := holds.absent absent
    refine ⟨false, found, ?_, ?_, fun _ => ⟨starts, replaced⟩, nofun, opens⟩
    · simpa using absent
    · simpa using position
  · obtain ⟨somewhere, occurs⟩ := not_forall_not.mp absent
    obtain ⟨place, first⟩ := Text.exists_isFirst occurs
    obtain ⟨position, found, cut, starts, around⟩ := holds.present fits first
    refine ⟨true, found, ?_, ?_, nofun, fun _ => ⟨place, first, position, cut, starts, around⟩,
      opens⟩
    · simpa using ⟨place, first.occurs⟩
    · have within := first.occurs.le
      rw [String.length_toList, String.length_toList] at within
      have minusOne : Number.toInt64 (-1.0) = -1 := by decide +kernel
      have own : Number.toInt64 (Number.ofNat place) = place := Number.toInt64_ofNat (by omega)
      refine iff_of_false (fun same => ?_) nofun
      rw [position] at same
      rw [Payload.number.inj same, minusOne] at own
      omega

/-- A machine with a text, a part of it and another part. -/
def menagerie : Machine :=
  { Machine.start ⟨"linux", "2024-01-01 00:00:00", 0, 0.5⟩ [] with
    heap := .ofCells #[.ofPayload (.text false "naïve 🦊, 🦊"), .ofPayload (.text false "🦊"),
      .ofPayload (.text false "fox")] }

/-- Before the part stand six characters of seven bytes. -/
theorem search_agrees_fox :
    menagerie.heap.payload (.cell 0) = .text false "naïve 🦊, 🦊" ∧
      menagerie.heap.payload (.cell 1) = .text false "🦊" ∧
      menagerie.heap.payload (.cell 2) = .text false "fox" ∧
      "naïve 🦊, 🦊".length ≤ twoPow 53 ∧
      (search (.cell 0) (.cell 1) (.cell 2)).Ends menagerie (fun answers m' => m'.status = .ok ∧
        m'.heap.payload answers.position = .number (Number.ofNat 6) ∧
        m'.heap.payload answers.cut = .text false "🦊") fun _ _ => False := by
  have fits : "naïve 🦊, 🦊".length ≤ twoPow 53 := by decide +kernel
  have hs : menagerie.heap.payload (.cell 0) = .text false "naïve 🦊, 🦊" := rfl
  have hn : menagerie.heap.payload (.cell 1) = .text false "🦊" := rfl
  have hr : menagerie.heap.payload (.cell 2) = .text false "fox" := rfl
  -- nothing else matters of the machine, so that it need not be run
  generalize menagerie = m at hs hn hr ⊢
  refine ⟨hs, hn, hr, fits, (search_agrees hs hn hr fits).mono ?_⟩
  rintro answers m' ⟨ok, found, is, somewhere, -, -, present⟩
  have occurs : OccursAt "🦊".toList "naïve 🦊, 🦊".toList 6 :=
    ⟨"naïve ".toList, ", 🦊".toList, by decide +kernel, by decide +kernel⟩
  obtain ⟨place, first, position, cut, -⟩ := present.1 (somewhere.mpr ⟨6, occurs⟩)
  have six : Text.position? "🦊".toList "naïve 🦊, 🦊".toList = some 6 := by decide +kernel
  rw [Text.position?_of_isFirst first, Option.some_inj] at six
  rw [six] at position
  exact ⟨ok, position, cut⟩

end Search

end ValueMachine
