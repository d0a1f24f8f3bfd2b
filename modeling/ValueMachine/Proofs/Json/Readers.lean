import ValueMachine.Proofs.Json.Completeness
import ValueMachine.Proofs.Json.Members
import ValueMachine.Proofs.Number.CorrectRounding

/-!
# What is asked of a reader

Values are read from JSON by a reader that is given. It takes the texts of the grammar and no others,
and of members of one name it keeps the last. Which double a number is read as is asked for apart from
that: some readers round correctly, some only nearly.

Results:
* `isReader_read?`, `isRounding_value?`: `Document.read?` is such a reader, and it rounds correctly;
* `IsReader.merged_read?`: those that round correctly all agree.
-/

namespace ValueMachine.Json

/-- The reader takes what spells a document, with the numbers as they are read. It is free to leave out
members that are merged away. -/
structure IsReader (read? : List Char → Option Document) (number? : NumberText → Option Float) :
    Prop where
  reads {d : Document} {text : List Char} (spells : Spells number? d text) :
    ∃ d', read? text = some d' ∧ d'.merged = d.merged
  spelled {d : Document} {text : List Char} (reads : read? text = some d) :
    ∃ d', Spells number? d' text ∧ d'.merged = d.merged

theorem isReader_read? : IsReader Document.read? (NumberText.value? .strict) where
  reads spells := ⟨_, read?_eq_some_iff.mpr spells, rfl⟩
  spelled reads := ⟨_, read?_eq_some_iff.mp reads, rfl⟩

/-- What is read back as a number spells the number. -/
theorem IsReader.readsBack {read? : List Char → Option Document}
    {number? : NumberText → Option Float} (reader : IsReader read? number?) {x : Float}
    (reads : read? (Number.general x Number.standardPrecision) = some (.number x)) :
    ReadsBack number? x := by
  obtain ⟨d, spells, merged⟩ := reader.spelled reads
  rwa [eq_number_of_merged merged] at spells

/-! ## Correct rounding -/

/-- The number without its sign. -/
def NumberText.amount (n : NumberText) : ℚ :=
  Number.plainValue (n.whole ++ n.fraction.getD []) *
    10 ^ (n.exponentValue - (n.fraction.getD []).length)

/-- Numbers are read as the nearest doubles, and are refused if that is an infinity. -/
structure IsRounding (number? : NumberText → Option Float) : Prop where
  nearest {n : NumberText} {part : List Char} {x : Float} (is : SpellsNumber n part)
    (reads : number? n = some x) : Number.IsNearest n.negative n.amount x ∧ x.isFinite = true
  beyond {n : NumberText} {part : List Char} (is : SpellsNumber n part) (refused : number? n = none) :
    2 ^ 1024 - 2 ^ 970 ≤ n.amount

theorem SpellsNumber.isNearest_value {n : NumberText} {part : List Char}
    (is : SpellsNumber n part) : Number.IsNearest n.negative n.amount n.value := by
  obtain ⟨isWhole, isFraction, -⟩ := is
  refine Number.isNearest_ofDecimal _ _ (List.forall_mem_append.mpr ⟨isWhole.1.2, ?_⟩)
  cases isFraction with
  | none => exact nofun
  | digits is => exact is.2

theorem isInf_of_isNearest {negative : Bool} {q : ℚ} {x : Float}
    (nearest : Number.IsNearest negative q x) : x.isInf = true ↔ 2 ^ 1024 - 2 ^ 970 ≤ q := by
  rw [Number.isInf_iff]
  rcases nearest with ⟨reads, below, -, -⟩ | ⟨reads, above⟩
  · refine iff_of_false ?_ (not_le.mpr below)
    rw [reads]
    rintro ⟨_, ⟨⟩⟩
  · exact iff_of_true ⟨_, reads⟩ above

theorem isFinite_of_isNearest {negative : Bool} {q : ℚ} {x : Float}
    (nearest : Number.IsNearest negative q x) : x.isFinite = true ↔ x.isInf = false := by
  rw [← Bool.not_eq_true, Number.isFinite_iff, Number.isInf_iff]
  rcases nearest with ⟨reads, -, -, -⟩ | ⟨reads, -⟩ <;> rw [reads] <;> simp

theorem isRounding_value? : IsRounding (NumberText.value? .strict) where
  nearest is reads := by
    rw [NumberText.value?] at reads
    split at reads
    · cases reads
    · next finite =>
      obtain rfl := Option.some.inj reads
      refine ⟨is.isNearest_value, (isFinite_of_isNearest is.isNearest_value).mpr ?_⟩
      rw [← Bool.not_eq_true]
      exact fun infinite => finite ⟨rfl, infinite⟩
  beyond is refused := by
    rw [NumberText.value?] at refused
    split at refused
    · next infinite => exact (isInf_of_isNearest is.isNearest_value).mp infinite.2
    · cases refused

section Rounding

variable {read? : List Char → Option Document} {number? number?' : NumberText → Option Float}

/-- There is one way to round correctly. -/
theorem IsRounding.unique (rounding : IsRounding number?) (rounding' : IsRounding number?')
    {n : NumberText} {part : List Char} (is : SpellsNumber n part) : number? n = number?' n := by
  have absurd' {number? number?' : NumberText → Option Float} (rounding : IsRounding number?)
      (rounding' : IsRounding number?') {x : Float} (reads : number? n = some x)
      (refused : number?' n = none) : False := by
    obtain ⟨nearest, finite⟩ := rounding.nearest is reads
    rw [isFinite_of_isNearest nearest, ← Bool.not_eq_true, isInf_of_isNearest nearest] at finite
    exact finite (rounding'.beyond is refused)
  cases reads : number? n with
  | none =>
    cases reads' : number?' n with
    | none => rfl
    | some y => exact (absurd' rounding' rounding reads' reads).elim
  | some x =>
    cases reads' : number?' n with
    | none => exact (absurd' rounding rounding' reads reads').elim
    | some y =>
      rw [(rounding.nearest is reads).1.unique (rounding'.nearest is reads').1]

theorem Spells.congr {d : Document} {text : List Char} (spells : Spells number? d text)
    (same : ∀ {n part}, SpellsNumber n part → number? n = number?' n) : Spells number?' d text := by
  induction spells with
  | blanks blank _ blank' ih => exact .blanks blank ih blank'
  | null => exact .null
  | bool b => exact .bool b
  | number is value => exact .number is (same is ▸ value)
  | text is => exact .text is
  | emptyArray blank => exact .emptyArray blank
  | array length _ ih => exact .array length ih
  | emptyObject blank => exact .emptyObject blank
  | object length named _ ih => exact .object length named ih

/-- Readers that round correctly read the same documents, up to members that are merged away. -/
theorem IsReader.merged_read? (reader : IsReader read? number?) (rounding : IsRounding number?)
    (text : List Char) :
    (read? text).map Document.merged = (Document.read? text).map Document.merged := by
  have same {n part} (is : SpellsNumber n part) : number? n = n.value? .strict :=
    rounding.unique isRounding_value? is
  cases own : Document.read? text with
  | some d =>
    obtain ⟨d', reads, eq⟩ :=
      reader.reads ((read?_eq_some_iff.mp own).congr fun is => (same is).symm)
    rw [reads, Option.map_some, Option.map_some, eq]
  | none =>
    cases reads : read? text with
    | none => rfl
    | some d =>
      obtain ⟨d', spells, -⟩ := reader.spelled reads
      rw [read?_eq_some_iff.mpr (spells.congr same)] at own
      cases own

end Rounding

end ValueMachine.Json
