import ValueMachine.Proofs.Json.Soundness

/-!
# How deep the reader goes

The reader of values calls itself for the values inside a value. How often it may do so is bounded
by its fuel, for which the whole text is always enough; what a text needs is as much as it nests.

Results:
* `readValue?_congr`: fuel beyond the nesting of a text changes nothing;
* `readWithin?_eq`: a reader that goes no deeper than the nesting reads the same, or refuses the same.
-/

namespace ValueMachine.Json

/-- Reads a document with at most so many arrays and objects around each value. -/
def Document.readWithin? (depth : Nat) (text : List Char) : Option Document := do
  let (document, rest) ← readValue? .strict (.replicate (depth + 1) ' ') (skipBlanks text)
  if (skipBlanks rest).isEmpty then return document else none

/-! ## What remains -/

/-- What remains of a text when the reader has taken a part of it needs no more than the text. -/
structure Remains (depth : Nat) (text rest : List Char) : Prop where
  nesting : nestingFrom .outside depth rest ≤ nestingFrom .outside depth text
  length : rest.length ≤ text.length

section Remains

variable {depth : Nat} {text rest : List Char}

theorem remains_skipBlanks (depth : Nat) (text : List Char) :
    Remains depth text (skipBlanks text) := by
  obtain ⟨blanks, blank, eq⟩ := exists_blanks text
  constructor
  · rw [congrArg (nestingFrom .outside depth) eq, blank.nestingFrom_eq]
  · exact List.length_dropWhile_le isBlank text

theorem Remains.trans {rest' : List Char} (first : Remains depth text rest)
    (second : Remains depth rest rest') : Remains depth text rest' :=
  ⟨second.nesting.trans first.nesting, second.length.trans first.length⟩

/-- Text that nests nothing may stand before the rest. -/
theorem remains_append (part : List Char) (nests : nestingFrom .outside depth (part ++ rest) =
    nestingFrom .outside depth rest) : Remains depth (part ++ rest) rest :=
  ⟨Nat.le_of_eq nests.symm, by simp⟩

theorem remains_of_readValue? {fuel : List Char} {d : Document}
    (reads : readValue? .strict fuel text = some (d, rest)) : Remains depth text rest := by
  obtain ⟨part, rfl, spells⟩ := spelt_readValue? fuel reads
  constructor
  · rw [id, spells.nests]
    exact Nat.le_max_right _ _
  · simp

theorem remains_of_readName? {name : String} (reads : readName? .strict text = some (name, rest)) :
    Remains depth text rest := by
  obtain ⟨⟨chars, rest₁⟩, readsQuoted, reads⟩ := Option.bind_eq_some_iff.mp reads
  obtain ⟨rest₂, readsColon, eq⟩ := Option.bind_eq_some_iff.mp reads
  cases eq
  obtain ⟨part, rfl, is⟩ := spellsText_of_readQuoted? readsQuoted
  have colon : Remains depth (skipBlanks rest₁) rest₂ := by
    rw [eq_append_of_readWord? readsColon]
    exact remains_append [':'] rfl
  exact (remains_append part (is.nestingFrom_eq depth rest₁)).trans
    ((remains_skipBlanks depth rest₁).trans (colon.trans (remains_skipBlanks depth rest₂)))

end Remains

/-! ## Readers that agree on shallow texts -/

/-- So many levels are enough for the text: it nests less, or it has no more characters. -/
def IsShallow (levels depth : Nat) (text : List Char) : Prop :=
  nestingFrom .outside depth text < depth + levels ∨ text.length ≤ levels

theorem IsShallow.remains {levels depth : Nat} {text rest : List Char}
    (shallow : IsShallow levels depth text) (remains : Remains depth text rest) :
    IsShallow levels depth rest :=
  shallow.imp remains.nesting.trans_lt remains.length.trans

/-- Two readers of items that answer the same on shallow texts, and leave less of a text. -/
structure Agree {α : Type} (levels depth : Nat)
    (item item' : List Char → Option (α × List Char)) : Prop where
  same : ∀ text, IsShallow levels depth text → item text = item' text
  remains : ∀ text a rest, item text = some (a, rest) → Remains depth text rest

namespace Agree

variable {α : Type} {levels depth : Nat} {item item' : List Char → Option (α × List Char)}

theorem readMore? (agree : Agree levels depth item item') (close : Char) (fuel : List Char) :
    ∀ text, IsShallow levels depth text →
      Json.readMore? item close fuel text = Json.readMore? item' close fuel text := by
  induction fuel with
  | nil => exact fun _ _ => rfl
  | cons _ fuel ih =>
    intro text shallow
    have shallow := shallow.remains (remains_skipBlanks depth text)
    rw [Json.readMore?, Json.readMore?, ← agree.same _ shallow]
    cases reads : item (skipBlanks text) with
    | none => rfl
    | some answer =>
      obtain ⟨x, rest⟩ := answer
      have left := shallow.remains
        ((agree.remains _ _ _ reads).trans (remains_skipBlanks depth rest))
      rw [Option.bind_eq_bind, Option.bind_eq_bind, Option.bind_some, Option.bind_some]
      dsimp only
      cases remaining : skipBlanks rest with
      | nil => rfl
      | cons c rest' =>
        dsimp only
        split
        · rfl
        split
        · next isComma =>
          rw [remaining, isComma] at left
          rw [ih rest' (left.remains (remains_append [','] rfl))]
        · rfl

theorem readList? (agree : Agree levels depth item item') {close : Char} {text : List Char}
    (shallow : IsShallow levels depth text) :
    Json.readList? item close text = Json.readList? item' close text := by
  rw [Json.readList?, Json.readList?]
  cases skipBlanks text with
  | nil => rfl
  | cons c rest => rw [agree.readMore? close text text shallow]

/-- Readers of members agree if their readers of values do. -/
theorem readMember? {value value' : List Char → Option (Document × List Char)}
    (agree : Agree levels depth value value') :
    Agree levels depth (Json.readMember? .strict value) (Json.readMember? .strict value') where
  same text shallow := by
    rw [Json.readMember?, Json.readMember?]
    cases reads : readName? .strict text with
    | none => rfl
    | some answer =>
      obtain ⟨name, rest⟩ := answer
      rw [Option.bind_eq_bind, Option.bind_eq_bind, Option.bind_some, Option.bind_some]
      dsimp only
      rw [agree.same rest (shallow.remains (remains_of_readName? reads))]
  remains text member rest reads := by
    obtain ⟨⟨name, rest₁⟩, readsName, reads⟩ := Option.bind_eq_some_iff.mp reads
    obtain ⟨⟨document, rest₂⟩, readsValue, eq⟩ := Option.bind_eq_some_iff.mp reads
    cases eq
    exact (remains_of_readName? readsName).trans (agree.remains _ _ _ readsValue)

end Agree

/-! ## Values -/

/-- One level of brackets takes one level of fuel. -/
theorem IsShallow.inside {levels depth : Nat} {c : Char} {rest : List Char}
    (shallow : IsShallow (levels + 1) depth (c :: rest))
    (opens : nestingFrom .outside depth (c :: rest) = nestingFrom .outside (depth + 1) rest) :
    IsShallow levels (depth + 1) rest := by
  rw [IsShallow, opens, List.length_cons] at shallow
  rw [IsShallow]
  omega

/-- Readers of values with levels enough for the text answer the same. -/
theorem readValue?_congr {levels : Nat} : ∀ {fuel fuel' : List Char} {depth : Nat} {text : List Char},
    levels ≤ fuel.length → levels ≤ fuel'.length → IsShallow levels depth text →
      readValue? .strict fuel text = readValue? .strict fuel' text := by
  induction levels with
  | zero =>
    intro fuel fuel' depth text _ _ shallow
    rcases shallow with lt | empty
    · exact absurd lt (Nat.not_lt.mpr (le_nestingFrom _ _ _))
    · rw [List.length_eq_zero_iff.mp (Nat.le_zero.mp empty)]
      cases fuel <;> cases fuel' <;> rfl
  | succ levels ih =>
    intro fuel fuel' depth text enough enough' shallow
    obtain ⟨f, fuel, rfl⟩ := List.exists_cons_of_length_pos (Nat.zero_lt_of_lt enough)
    obtain ⟨f', fuel', rfl⟩ := List.exists_cons_of_length_pos (Nat.zero_lt_of_lt enough')
    have agree : Agree levels (depth + 1) (readValue? .strict fuel) (readValue? .strict fuel') :=
      ⟨fun _ => ih (Nat.le_of_succ_le_succ enough) (Nat.le_of_succ_le_succ enough'),
        fun _ _ _ => remains_of_readValue?⟩
    cases text with
    | nil => rfl
    | cons c rest =>
      rw [readValue?, readValue?]
      -- only brackets lead to values inside, one level deeper
      split
      · next isArray =>
        subst isArray
        rw [agree.readList? (shallow.inside rfl)]
      split
      · next isObject =>
        subst isObject
        rw [agree.readMember?.readList? (shallow.inside rfl)]
      · rfl

/-- A reader that goes no deeper than the text nests answers as one without a bound. -/
theorem readWithin?_eq {depth : Nat} {text : List Char} (shallow : nesting text ≤ depth) :
    Document.readWithin? depth text = Document.read? text := by
  have whole : IsShallow (min (depth + 1) text.length) 0 text := by
    rw [IsShallow, ← nesting]
    omega
  rw [Document.readWithin?, Document.read?, readValue?_congr _ _
    (whole.remains (remains_skipBlanks 0 text))]
  · rw [List.length_replicate]
    exact Nat.min_le_left _ _
  · exact Nat.min_le_right _ _

end ValueMachine.Json
