import ValueMachine.Proofs.Number.Truncation
import ValueMachine.Proofs.Value.TextPositions

/-!
# Characters and parts of texts

Every number is a place in a text or a number of characters by its integer part. A place before the
beginning or behind the end has no character; a number of characters is cut down to those that are
there.

Results:
* `isPart_cutOut`: what is cut out of a text;
* `spells_substr`, `spells_charAt`, `isOutOfText_charAt`: what both operations answer;
* `spells_before_and_after`, `spells_character`: the parts that make up a text again;
* `cuts_characters`: parts and characters for every number.
-/

namespace ValueMachine

open Number (towardZero value)

/-! ## Parts -/

/-- A part of a text stands behind `place` characters and has `count` of them. -/
def Text.IsPart (text part : List Char) (place count : ℤ) : Prop :=
  ∃ before after, text = before ++ part ++ after ∧ (before.length : ℤ) = place ∧
    (part.length : ℤ) = count

theorem Text.isPart_take_drop {text : List Char} {place count : ℕ}
    (le : place + count ≤ text.length) :
    IsPart text ((text.drop place).take count) place count := by
  refine ⟨text.take place, (text.drop place).drop count, ?_, ?_, ?_⟩
  · rw [List.append_assoc, List.take_append_drop, List.take_append_drop]
  · rw [List.length_take, Nat.min_eq_left (by omega)]
  · rw [List.length_take, List.length_drop, Nat.min_eq_left (by omega)]

section Parts

variable {text : List Char} {place : ℤ}

/-- What is cut out begins at the place, and is cut down to what is there. -/
theorem isPart_cutOut (nonneg : 0 ≤ place) (lt : place < text.length) (count : Option ℤ) :
    Text.IsPart text (Value.cutOut text place count) place
      (max 0 (min (text.length - place) (count.getD (text.length - place)))) := by
  obtain ⟨first, rfl⟩ := Int.eq_ofNat_of_zero_le nonneg
  obtain ⟨some, eq⟩ : ∃ some : ℕ,
      max 0 (min ((text.length : ℤ) - first) (count.getD (text.length - first))) = some :=
    ⟨_, (Int.toNat_of_nonneg (le_max_left _ _)).symm⟩
  have taken : Value.cutOut text first count = (text.drop first).take some := by
    rw [Value.cutOut_natCast, List.take_eq_take_iff, List.length_drop]
    cases count with
    | none =>
      rw [Option.getD_none] at eq
      rw [Option.elim_none]
      omega
    | some n =>
      rw [Option.getD_some] at eq
      rw [Option.elim_some]
      omega
  rw [eq, taken]
  exact Text.isPart_take_drop (by omega)

/-- Outside the text there is nothing to cut out. -/
theorem cutOut_outside (outside : ¬(0 ≤ place ∧ place < text.length)) (count : Option ℤ) :
    Value.cutOut text place count = [] := by
  by_cases negative : place < 0
  · rw [Value.cutOut, if_pos negative]
  · exact Value.cutOut_of_le (by omega) count

/-- What is cut out before a place and from it on. -/
theorem cutOut_before_and_after (place : ℕ) (text : List Char) :
    Value.cutOut text 0 (some (place : ℤ)) = text.take place ∧
      Value.cutOut text place none = text.drop place := by
  have all : (text.drop place).take text.length = text.drop place :=
    List.take_of_length_le (by rw [List.length_drop]; omega)
  rw [← Nat.cast_zero, Value.cutOut_natCast, Value.cutOut_natCast, Option.elim_some,
    Int.toNat_natCast, List.drop_zero, Option.elim_none, all]
  exact ⟨rfl, rfl⟩

/-- One character is what stands at the place. -/
theorem cutOut_one {place : ℕ} (lt : place < text.length) :
    Value.cutOut text place (some 1) = [text[place]] := by
  rw [Value.cutOut_natCast, List.drop_eq_getElem_cons lt]
  rfl

end Parts

/-! ## Operations -/

/-- The operation succeeds with a new text of the given characters. -/
def Attempt.Spells (x : Attempt Value) (m : Machine) (chars : List Char) : Prop :=
  ∃ w h, (settle x).run.run m = (.ok w, { m with heap := h, status := .ok }) ∧
    h.payload w = .text false (.ofList chars) ∧ m.heap.Grows h

/-- The operation fails since there is no such character, and leaves null. -/
def Attempt.IsOutOfText (x : Attempt Value) (m : Machine) : Prop :=
  ∃ w h, (settle x).run.run m =
      (.ok w, { m with heap := h, status := ⟨.outOfBounds, "(charAt) index out of range"⟩ }) ∧
    h.payload w = .null ∧ m.heap.Grows h

section Operations

variable {m : Machine} {config : Config} {h : Heap} {s i : Value} {cs : Bool} {text : String}
  {x : Float}

theorem Attempt.Answers.spells {attempt : Attempt Value} {chars : List Char}
    (answers : Attempt.Answers attempt (.text false (.ofList chars)) m.config m.heap) :
    attempt.Spells m chars := by
  unfold Attempt.Answers at answers
  generalize run : HeapM.perform attempt.run m.config m.heap = outcome at answers
  obtain ⟨failure | w, h⟩ := outcome
  · exact answers.elim
  · exact ⟨w, h, settle_ok run, answers⟩

/-- Reading a character, by the character at the place of the number. -/
theorem perform_charAt (hs : h.payload s = .text cs text) (hi : h.payload i = .number x) :
    HeapM.perform (Value.charAt s i).run config h =
      HeapM.perform (match (Value.place? x).bind (text.toList[·]?) with
        | some c => liftM (Value.ofChars [c])
        | none => failNull .characterBounds .string : Attempt Value).run config h := by
  have chars : HeapM.perform (Value.charsArg s "charAt" "requires string or array"
      (Value.nullOf .string)).run config h = (.ok text.toList, h) := by
    have is : (h.payload s).text? = some text := by rw [hs]; rfl
    rw [Value.charsArg, Attempt.bind_ok (perform_require _ config is _ _ _)]
    rfl
  have number : HeapM.perform (require Payload.number? i "charAt" "requires numeric index"
      (Value.nullOf .string)).run config h = (.ok x, h) :=
    perform_require _ config (by rw [hi]; rfl) _ _ _
  rw [Value.charAt, Attempt.bind_payloadOf, hs]
  show HeapM.perform (Value.charsArg s _ _ _ >>= _).run config h = _
  rw [Attempt.bind_ok chars]
  exact Attempt.bind_ok number _

/-- The place of a number that is not negative is its integer part. -/
theorem getElem?_place? (chars : List Char) (fits : chars.length < 2 ^ 63) (x : Float) :
    (Value.place? x).bind (chars[·]?) =
      if Number.read x ≠ .nan ∧ 0 ≤ value x then chars[(towardZero (value x)).toNat]?
      else none := by
  have le_iff : (0.0 ≤ x) ↔ Number.read x ≠ .nan ∧ 0 ≤ value x := by
    have zero := Number.read_ne_nan_of_isFinite Number.isFinite_zero
    rw [Number.zero_le_iff, ← Number.lt_zero_iff, Number.lt_iff_value_lt, Number.value_zero,
      ← not_lt]
    tauto
  rw [Value.place?]
  simp only [le_iff]
  split
  · next inside =>
    have count := Number.toCount_eq_towardZero inside.1 inside.2
    have whole : 0 ≤ towardZero (value x) := by
      rw [Number.towardZero_of_nonneg inside.2]
      exact Int.floor_nonneg.mpr inside.2
    rw [Option.bind_some]
    rcases le_or_gt (towardZero (value x)) (2 ^ 64 - 1) with small | large
    · rw [min_eq_right small] at count
      rw [← count, Int.toNat_natCast]
    · rw [min_eq_left large.le] at count
      rw [List.getElem?_eq_none (by omega), List.getElem?_eq_none (by omega)]
  · rfl

theorem spells_cutOut (hs : m.heap.payload s = .text cs text) (hi : m.heap.payload i = .number x)
    (l : Value) : (Value.substr s i l).Spells m
      (Value.cutOut text.toList (Number.toInt64 x)
        ((m.heap.payload l).number?.map Number.toInt64)) :=
  (Value.answers_substr hs hi l).spells

/-- What is cut out of a text, by the exact values of the numbers. -/
theorem spells_substr (hs : m.heap.payload s = .text cs text) (fits : text.length < 2 ^ 63)
    (hi : m.heap.payload i = .number x) (l : Value) :
    let first := max (-2 ^ 63) (min (2 ^ 63 - 1) (towardZero (value x)))
    let rest := text.length - first
    let count := max 0 (min rest
      ((m.heap.payload l).number?.elim rest fun y => towardZero (value y)))
    ∃ part, (Value.substr s i l).Spells m part ∧
      if 0 ≤ first ∧ first < text.length then Text.IsPart text.toList part first count
      else part = [] := by
  intro first rest count
  have answers := spells_cutOut hs hi l
  rw [Number.toInt64_eq] at answers
  -- numbers of characters beyond 64 bits are cut down either way
  have same (number? : Option Float) (nonneg : 0 ≤ first) :
      max 0 (min (text.length - first) ((number?.map Number.toInt64).getD (text.length - first))) =
        max 0 (min rest (number?.elim rest fun y => towardZero (value y))) := by
    cases number? with
    | none => rfl
    | some y =>
      rw [Option.map_some, Option.getD_some, Option.elim_some, Number.toInt64_eq]
      omega
  refine ⟨_, answers, ?_⟩
  rw [← String.length_toList] at same ⊢
  split
  · next inside =>
    have part := isPart_cutOut inside.1 inside.2 ((m.heap.payload l).number?.map Number.toInt64)
    rwa [same _ inside.1] at part
  · next outside => exact cutOut_outside outside _

theorem spells_charAt (hs : m.heap.payload s = .text cs text) (fits : text.length < 2 ^ 63)
    (hi : m.heap.payload i = .number x) {c : Char} (number : Number.read x ≠ .nan)
    (nonneg : 0 ≤ value x) (is : text.toList[(towardZero (value x)).toNat]? = some c) :
    (Value.charAt s i).Spells m [c] := by
  have new : Attempt.Answers (liftM (Value.ofText (.ofList [c]))) (.text false (.ofList [c]))
    m.config m.heap := Attempt.answers_ofText (.ofList [c])
  refine Attempt.Answers.spells ?_
  unfold Attempt.Answers at new ⊢
  rw [perform_charAt hs hi, getElem?_place? _ (by rwa [String.length_toList]),
    if_pos ⟨number, nonneg⟩, is]
  exact new

theorem isOutOfText_charAt (hs : m.heap.payload s = .text cs text) (fits : text.length < 2 ^ 63)
    (hi : m.heap.payload i = .number x)
    (outside : ¬(Number.read x ≠ .nan ∧ 0 ≤ value x ∧ value x < text.length)) :
    (Value.charAt s i).IsOutOfText m := by
  have none : (Value.place? x).bind (text.toList[·]?) = none := by
    rw [getElem?_place? _ (by rwa [String.length_toList])]
    split
    · next inside =>
      have beyond : (text.length : ℚ) ≤ value x := by
        by_contra below
        exact outside ⟨inside.1, inside.2, not_le.mp below⟩
      have le : (text.length : ℤ) ≤ towardZero (value x) := by
        rw [Number.towardZero_of_nonneg inside.2]
        exact Int.le_floor.mpr (by exact_mod_cast beyond)
      exact List.getElem?_eq_none (by rw [String.length_toList]; omega)
    · rfl
  have run := settle_eq (Value.charAt s i) m
  rw [perform_charAt hs hi, none] at run
  refine ⟨_, _, run, ?_, ?_⟩
  · exact congrArg Cell.payload (m.heap.cell_alloc_self ⟨.string, .counted, .null⟩)
  · exact m.heap.grows_alloc _

/-- A text is cut in two at each of its places. -/
theorem spells_before_and_after (hs : m.heap.payload s = .text cs text)
    (fits : text.length < 2 ^ 63) {start l : Value} {z : Float} {k : ℕ}
    (hz : m.heap.payload start = .number z) (nothing : value z = 0)
    (hi : m.heap.payload i = .number x) (whole : value x = k) (le : k ≤ text.length)
    (absent : (m.heap.payload l).number? = none) : ∃ front back,
      (Value.substr s start i).Spells m front ∧ (Value.substr s i l).Spells m back ∧
        front ++ back = text.toList ∧ front.length = k := by
  have zero : Number.toInt64 z = 0 := by rw [Number.toInt64_eq, nothing]; decide
  have place : Number.toInt64 x = k := by
    rw [Number.toInt64_eq, whole, ← Int.cast_natCast, Number.towardZero_intCast]
    omega
  have front := spells_cutOut hs hz i
  have back := spells_cutOut hs hi l
  have given : (m.heap.payload i).number? = some x := by rw [hi]; rfl
  rw [zero, given, Option.map_some, place] at front
  rw [place, absent, Option.map_none] at back
  obtain ⟨before, after⟩ := cutOut_before_and_after k text.toList
  rw [before] at front
  rw [after] at back
  refine ⟨_, _, front, back, List.take_append_drop _ _, ?_⟩
  rw [List.length_take, String.length_toList, Nat.min_eq_left le]

/-- There is a character at every number inside the text. -/
theorem exists_character (nonneg : 0 ≤ value x) (lt : value x < text.length) :
    ∃ c, text.toList[(towardZero (value x)).toNat]? = some c := by
  have place : (towardZero (value x)).toNat < text.toList.length := by
    have least : 0 ≤ ⌊value x⌋ := Int.floor_nonneg.mpr nonneg
    have below : ⌊value x⌋ < (text.length : ℤ) := Int.floor_lt.mpr (by exact_mod_cast lt)
    rw [Number.towardZero_of_nonneg nonneg, String.length_toList]
    omega
  exact ⟨_, List.getElem?_eq_getElem place⟩

/-- The character at a place is what is cut out there with one character. -/
theorem spells_character (hs : m.heap.payload s = .text cs text) (fits : text.length < 2 ^ 63)
    (hi : m.heap.payload i = .number x) (nonneg : 0 ≤ value x) {c : Char}
    (is : text.toList[(towardZero (value x)).toNat]? = some c) {one : Value} {y : Float}
    (ho : m.heap.payload one = .number y) (single : value y = 1) :
    (Value.substr s i one).Spells m [c] := by
  obtain ⟨lt, is⟩ := List.getElem?_eq_some_iff.mp is
  have length : Number.toInt64 y = 1 := by rw [Number.toInt64_eq, single]; decide
  have floor : 0 ≤ ⌊value x⌋ := Int.floor_nonneg.mpr nonneg
  have place : Number.toInt64 x = (towardZero (value x)).toNat := by
    rw [String.length_toList] at lt
    rw [Number.towardZero_of_nonneg nonneg] at lt ⊢
    rw [Number.toInt64_eq, Number.towardZero_of_nonneg nonneg]
    omega
  have given : (m.heap.payload one).number? = some y := by rw [ho]; rfl
  have cut := spells_cutOut hs hi one
  rwa [given, Option.map_some, place, length, cutOut_one lt, is] at cut

/-- In a text that fits into memory every number is a place or a number of characters. What is cut
out begins at the integer part of the first number and has as many characters as the integer part
of the second one says, but not more than there are, and all of them if there is no second number.
It is empty if it would begin outside the text. No cut is made inside a character. So a text is cut
in two at each of its places, and the character at a place is what is cut out there with one
character. The other numbers are no places of characters. -/
theorem cuts_characters (hs : m.heap.payload s = .text cs text) (fits : text.length < 2 ^ 63) :
    (∀ i l x, m.heap.payload i = .number x →
      let first := max (-2 ^ 63) (min (2 ^ 63 - 1) (towardZero (value x)))
      let rest := text.length - first
      let count := max 0 (min rest
        ((m.heap.payload l).number?.elim rest fun y => towardZero (value y)))
      ∃ part, (Value.substr s i l).Spells m part ∧
        if 0 ≤ first ∧ first < text.length then Text.IsPart text.toList part first count
        else part = []) ∧
    (∀ place count, (Text.part? place count text.toList).isSome = true) ∧
    (∀ start i l z x (k : ℕ), m.heap.payload start = .number z → value z = 0 →
      m.heap.payload i = .number x → value x = k → k ≤ text.length →
      (m.heap.payload l).number? = none → ∃ front back,
        (Value.substr s start i).Spells m front ∧ (Value.substr s i l).Spells m back ∧
          front ++ back = text.toList ∧ front.length = k) ∧
    ∀ i x, m.heap.payload i = .number x →
      if Number.read x ≠ .nan ∧ 0 ≤ value x ∧ value x < text.length then
        ∃ c, (Value.charAt s i).Spells m [c] ∧ ∀ one y, m.heap.payload one = .number y →
          value y = 1 → (Value.substr s i one).Spells m [c]
      else (Value.charAt s i).IsOutOfText m := by
  refine ⟨fun i l x hi => spells_substr hs fits hi l, fun place count => ?_, ?_, ?_⟩
  · rw [Text.part?_eq]
    rfl
  · intro start i l z x k hz nothing hi whole le absent
    exact spells_before_and_after hs fits hz nothing hi whole le absent
  · intro i x hi
    split
    · next inside =>
      obtain ⟨c, is⟩ := exists_character inside.2.1 inside.2.2
      have own := spells_charAt hs fits hi inside.1 inside.2.1 is
      exact ⟨c, own, fun one y ho single => spells_character hs fits hi inside.2.1 is ho single⟩
    · next outside => exact isOutOfText_charAt hs fits hi outside

/-- A machine with a text of seven characters and with numbers that are no integers. -/
def postcard : Machine :=
  { Machine.start ⟨"linux", "2024-01-01 00:00:00", 0, 0.5⟩ [] with
    heap := .ofCells #[.ofPayload (.text false "naïve 🦊"), .ofPayload (.number 2.9),
      .ofPayload (.number (Number.infinity false)), .ofPayload (.number (-0.5))] }

/-- From 2.9 on there are five characters; -0.5 is no place. -/
theorem cuts_characters_fox :
    postcard.heap.payload (.cell 0) = .text false "naïve 🦊" ∧ "naïve 🦊".length < 2 ^ 63 ∧
      (∃ part, (Value.substr (.cell 0) (.cell 1) (.cell 2)).Spells postcard part ∧
        Text.IsPart "naïve 🦊".toList part 2 5) ∧
      (∃ c, (Value.charAt (.cell 0) (.cell 1)).Spells postcard [c]) ∧
      (Value.charAt (.cell 0) (.cell 3)).IsOutOfText postcard := by
  have hs : postcard.heap.payload (.cell 0) = .text false "naïve 🦊" := rfl
  have fits : "naïve 🦊".length < 2 ^ 63 := by decide +kernel
  have start : towardZero (value 2.9) = 2 := by decide +kernel
  have endless : towardZero (value (Number.infinity false)) = 2 ^ 1024 := by decide +kernel
  have given : (postcard.heap.payload (.cell 2)).number? = some (Number.infinity false) := rfl
  have length : "naïve 🦊".length = 7 := by decide +kernel
  obtain ⟨cuts, -, -, reads⟩ := cuts_characters hs fits
  refine ⟨hs, fits, ?_, ?_, ?_⟩
  · obtain ⟨part, spells, is⟩ := cuts (.cell 1) (.cell 2) 2.9 rfl
    refine ⟨part, spells, ?_⟩
    rw [start, given, Option.elim_some, endless, length, if_pos (by decide)] at is
    have count :
        max (0 : ℤ) (min ((7 : ℕ) - max (-2 ^ 63) (min (2 ^ 63 - 1) 2)) (2 ^ 1024)) = 5 := by
      decide +kernel
    rwa [count] at is
  · have read := reads (.cell 1) 2.9 rfl
    rw [if_pos (by decide +kernel)] at read
    obtain ⟨c, spells, -⟩ := read
    exact ⟨c, spells⟩
  · have read := reads (.cell 3) (-0.5) rfl
    rwa [if_neg (by decide +kernel)] at read

end Operations

end ValueMachine
