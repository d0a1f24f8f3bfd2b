import ValueMachine.Json.Reader

/-!
# The characters of numbers

Numbers have no blanks, no brackets and no commas, so where a number ends can be told from the next
character.

Results:
* `Delimits`: what cannot go on with a number;
* `nestingFrom_numeral`: numbers have no brackets.
-/

namespace ValueMachine.Json

/-- The characters that numbers are written with. -/
def isNumeral (c : Char) : Bool :=
  c.isDigit || c == '-' || c == '+' || c == '.' || c == 'e' || c == 'E'

theorem ne_of_isNumeral {c d : Char} (numeral : isNumeral c = true) (no : isNumeral d = false) :
    c ≠ d := by
  rintro rfl
  rw [numeral] at no; cases no

theorem isBlank_of_isNumeral {c : Char} (numeral : isNumeral c = true) : isBlank c = false := by
  simp only [isBlank, Bool.or_eq_false_iff, beq_eq_false_iff_ne]
  refine ⟨⟨⟨?_, ?_⟩, ?_⟩, ?_⟩
  all_goals exact ne_of_isNumeral numeral (by decide)

theorem isNumeral_of_isBlank {c : Char} (blank : isBlank c = true) : isNumeral c = false := by
  simp only [isBlank, Bool.or_eq_true, beq_iff_eq] at blank
  rcases blank with ((rfl | rfl) | rfl) | rfl <;> rfl

theorem skipBlanks_cons {c : Char} (no : isBlank c = false) (rest : List Char) :
    skipBlanks (c :: rest) = c :: rest := by
  simp [skipBlanks, no]

/-! ## Delimiters -/

/-- The text does not begin with a character of a number. -/
def Delimits (text : List Char) : Prop := ∀ c ∈ text.head?, isNumeral c = false

theorem delimits_nil : Delimits [] := fun _ mem => by cases mem

theorem takeWhile_append_of_stops {p : Char → Bool} (text : List Char) {rest : List Char}
    (stops : ∀ c ∈ rest.head?, p c = false) :
    (text ++ rest).takeWhile p = text.takeWhile p ∧
      (text ++ rest).dropWhile p = text.dropWhile p ++ rest := by
  induction text with
  | nil =>
    cases rest with
    | nil => exact ⟨rfl, rfl⟩
    | cons c rest =>
      have stop : p c = false := stops c rfl
      simp [stop]
  | cons c text ih =>
    cases h : p c with
    | true => simp [h, ih]
    | false => simp [h]

theorem isNumeral_of_isDigit {c : Char} (h : c.isDigit = true) : isNumeral c = true := by
  simp [isNumeral, h]

/-! ## Nesting -/

/-- Numbers have no brackets. -/
theorem nestingFrom_numeral (depth : Nat) {text : List Char}
    (numerals : ∀ c ∈ text, isNumeral c = true) (rest : List Char) :
    nestingFrom .outside depth (text ++ rest) = nestingFrom .outside depth rest := by
  induction text with
  | nil => rfl
  | cons c text ih =>
    have other {d : Char} (no : isNumeral d = false) : c ≠ d := by
      rintro rfl
      rw [numerals c List.mem_cons_self] at no; cases no
    have step : nestingFrom .outside depth (c :: (text ++ rest)) =
        nestingFrom .outside depth (text ++ rest) := by
      rw [nestingFrom, if_neg (other (by decide)), if_neg, if_neg]
      · exact not_or.mpr ⟨other (by decide), other (by decide)⟩
      · exact not_or.mpr ⟨other (by decide), other (by decide)⟩
    rw [List.cons_append, step, ih fun d mem => numerals d (List.mem_cons_of_mem c mem)]

end ValueMachine.Json
