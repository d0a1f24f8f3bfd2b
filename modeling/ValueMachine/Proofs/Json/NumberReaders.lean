import Mathlib.Data.List.TakeWhile
import ValueMachine.Proofs.Number.Digits
import ValueMachine.Proofs.Number.NumeralGrammar

/-!
# Readers of numbers

Numbers are read from JSON texts and from texts that are converted to numbers. What the grammar of
JSON spells as a number is a numeral, and both readers read it as the same double.

Results:
* `readNumberText?_append`: the reader of JSON;
* `readWhole?_of_spells`: the reader of numerals.
-/

namespace ValueMachine

/-! ## Digits in front of something else -/

namespace Json

/-- A text that does not begin with a digit. -/
def EndsDigits (rest : List Char) : Prop := ∀ c ∈ rest.head?, c.isDigit = false

theorem span_digits {digits rest : List Char} (is : IsDigits digits) (ends : EndsDigits rest) :
    (digits ++ rest).takeWhile Char.isDigit = digits ∧
      (digits ++ rest).dropWhile Char.isDigit = rest := by
  obtain ⟨take, drop⟩ := takeWhile_append_of_stops digits ends
  rw [take, drop, List.takeWhile_eq_self_iff.mpr is.2, List.dropWhile_eq_nil_iff.mpr is.2]
  exact ⟨rfl, rfl⟩

theorem Delimits.head?_ne {rest : List Char} (stops : Delimits rest) {c : Char}
    (numeral : isNumeral c = true) : rest.head? ≠ some c := by
  intro eq
  have := stops c eq
  rw [numeral] at this; cases this

theorem Delimits.endsDigits {rest : List Char} (stops : Delimits rest) : EndsDigits rest := by
  intro c first
  rw [← Bool.not_eq_true]
  intro digit
  have := stops c first
  rw [isNumeral_of_isDigit digit] at this; cases this

theorem endsDigits_of_spellsExponent {exponent : Option (Bool × List Char)} {part rest : List Char}
    (spells : SpellsExponent exponent part) (stops : Delimits rest) : EndsDigits (part ++ rest) := by
  have mark {c : Char} (isMark : c = 'e' ∨ c = 'E') : c.isDigit = false := by
    rcases isMark with rfl | rfl <;> rfl
  cases spells with
  | none => exact stops.endsDigits
  | digits isMark _ => rintro c ⟨⟩; exact mark isMark
  | plus isMark _ => rintro c ⟨⟩; exact mark isMark
  | minus isMark _ => rintro c ⟨⟩; exact mark isMark

theorem endsDigits_of_spellsFraction {fraction : Option (List Char)} {part rest : List Char}
    (spells : SpellsFraction fraction part) (ends : EndsDigits rest) :
    EndsDigits (part ++ rest) := by
  cases spells with
  | none => exact ends
  | digits is => rintro c ⟨⟩; rfl

theorem head?_ne_of_spellsExponent {exponent : Option (Bool × List Char)} {part rest : List Char}
    (spells : SpellsExponent exponent part) (stops : Delimits rest) :
    (part ++ rest).head? ≠ some '.' := by
  have mark {c : Char} (isMark : c = 'e' ∨ c = 'E') : c ≠ '.' := by
    rcases isMark with rfl | rfl <;> decide
  cases spells with
  | none => exact stops.head?_ne (by decide)
  | digits isMark _ => exact fun eq => mark isMark (Option.some.inj eq)
  | plus isMark _ => exact fun eq => mark isMark (Option.some.inj eq)
  | minus isMark _ => exact fun eq => mark isMark (Option.some.inj eq)

/-! ## The reader of JSON -/

theorem readDigits?_append {digits rest : List Char} (is : IsDigits digits)
    (ends : EndsDigits rest) : readDigits? (digits ++ rest) = some (digits, rest) := by
  obtain ⟨take, drop⟩ := span_digits is ends
  rw [readDigits?, take, drop, if_neg]
  rw [List.isEmpty_iff]
  exact is.1

theorem readWhole?_append {digits rest : List Char} (is : IsWhole digits)
    (ends : EndsDigits rest) : readWhole? (digits ++ rest) = some (digits, rest) := by
  rw [readWhole?, readDigits?_append is.1 ends]
  show (if digits.head? = some '0' ∧ 1 < digits.length then none else some (digits, rest)) = _
  rw [if_neg]
  rintro ⟨zero, long⟩
  rw [is.2 zero] at long
  exact absurd long (by decide)

theorem readFraction?_append {fraction : Option (List Char)} {part rest : List Char}
    (spells : SpellsFraction fraction part) (ends : EndsDigits rest)
    (noPoint : rest.head? ≠ some '.') : readFraction? (part ++ rest) = some (fraction, rest) := by
  cases spells with
  | none =>
    rw [List.nil_append]
    rw [readFraction?.eq_def]
    split
    · exact absurd rfl noPoint
    · rfl
  | @digits digits is =>
    show (readDigits? (digits ++ rest) >>= _) = _
    rw [readDigits?_append is ends]
    rfl

theorem readSign_digits {digits : List Char} (is : IsDigits digits) (rest : List Char) :
    readSign (digits ++ rest) = (false, digits ++ rest) := by
  have noMinus : (digits ++ rest).head? ≠ some '-' := is.head?_ne (by decide) rest
  have noPlus : (digits ++ rest).head? ≠ some '+' := is.head?_ne (by decide) rest
  rw [readSign.eq_def]
  split
  · next eq => rw [eq] at noMinus; exact absurd rfl noMinus
  · next eq => rw [eq] at noPlus; exact absurd rfl noPlus
  · rfl

theorem readExponent?_append {exponent : Option (Bool × List Char)} {part rest : List Char}
    (spells : SpellsExponent exponent part) (stops : Delimits rest) :
    readExponent? (part ++ rest) = some (exponent, rest) := by
  have reads {mark : Char} {text digits : List Char} {negative : Bool}
      (isMark : mark = 'e' ∨ mark = 'E') (is : IsDigits digits)
      (signed : readSign (text ++ rest) = (negative, digits ++ rest)) :
      readExponent? (mark :: text ++ rest) = some (some (negative, digits), rest) := by
    rw [List.cons_append, readExponent?, if_pos isMark, signed]
    dsimp only
    rw [readDigits?_append is stops.endsDigits]
    rfl
  cases spells with
  | none =>
    cases rest with
    | nil => rfl
    | cons c rest =>
      have notMark : ¬(c = 'e' ∨ c = 'E') := by
        rintro (rfl | rfl) <;> exact stops.head?_ne (by decide) rfl
      exact if_neg notMark
  | digits isMark is => exact reads isMark is (readSign_digits is rest)
  | plus isMark is => exact reads isMark is rfl
  | minus isMark is => exact reads isMark is rfl

/-- What the grammar spells as a number is read as that number, whatever delimits it. -/
theorem readNumberText?_append {n : NumberText} {part rest : List Char}
    (spells : SpellsNumber n part) (stops : Delimits rest) :
    readNumberText? (part ++ rest) = some (n, rest) := by
  obtain ⟨isWhole, isFraction, isExponent⟩ := spells
  rename_i negative whole fraction exponent fractionText exponentText
  have ends := endsDigits_of_spellsExponent isExponent stops
  have unsigned : (readWhole? (whole ++ (fractionText ++ (exponentText ++ rest))) >>= fun p =>
      readFraction? p.2 >>= fun q => readExponent? q.2 >>= fun r =>
        some (NumberText.mk negative p.1 q.1 r.1, r.2)) =
      some (⟨negative, whole, fraction, exponent⟩, rest) := by
    rw [readWhole?_append isWhole (endsDigits_of_spellsFraction isFraction ends)]
    show (readFraction? (fractionText ++ (exponentText ++ rest)) >>= _) = _
    rw [readFraction?_append isFraction ends (head?_ne_of_spellsExponent isExponent stops)]
    show (readExponent? (exponentText ++ rest) >>= _) = _
    rw [readExponent?_append isExponent stops]
    rfl
  rw [List.append_assoc, List.append_assoc, List.append_assoc]
  cases negative with
  | true => exact unsigned
  | false =>
    have noMinus : (whole ++ (fractionText ++ (exponentText ++ rest))).head? ≠ some '-' :=
      isWhole.1.head?_ne (by decide) _
    show readNumberText? (whole ++ (fractionText ++ (exponentText ++ rest))) = _
    rw [readNumberText?, decide_eq_false noMinus, if_neg noMinus]
    exact unsigned

end Json

namespace Number

open Json

/-! ## The reader of numerals -/

theorem exponentPower_eq (n : NumberText) : exponentPower n.exponent = n.exponentValue := by
  obtain ⟨negative, whole, fraction, exponent⟩ := n
  cases exponent with
  | none => rfl
  | some exponent =>
    obtain ⟨minus, digits⟩ := exponent
    rw [exponentPower, NumberText.exponentValue, ← digitsValue_eq]

/-- What the grammar of JSON spells as a number is a numeral. -/
theorem spellsNumeral_of_spellsNumber {n : NumberText} {part : List Char}
    (spells : SpellsNumber n part) :
    SpellsNumeral (.decimal n.negative n.whole (n.fraction.getD []) n.exponent) part := by
  obtain ⟨isWhole, isFraction, isExponent⟩ := spells
  rename_i negative whole fraction exponent fractionText exponentText
  have isSign : SpellsSign negative (signText negative) := by
    cases negative with
    | false => exact .none
    | true => exact .minus
  have isDigits : SpellsDigits whole (fraction.getD []) (whole ++ fractionText) := by
    cases isFraction with
    | none =>
      rw [List.append_nil]
      exact .plain isWhole.1
    | digits is =>
      refine .point ⟨List.append_ne_nil_of_left_ne_nil isWhole.1.1 _, ?_⟩
      exact List.forall_mem_append.mpr ⟨isWhole.1.2, is.2⟩
  have numeral := SpellsNumeral.decimal isSign isDigits isExponent
  simp only [← List.append_assoc] at numeral
  exact numeral

/-- What the grammar of JSON spells as a number is a numeral for that number. -/
theorem readWhole?_of_spells {n : NumberText} {part : List Char} (spells : SpellsNumber n part) :
    readWhole? part = some n.value := by
  rw [readWhole?, scan_of_spells (spellsNumeral_of_spellsNumber spells), NumberText.value,
    ← exponentPower_eq]
  rfl

end Number

end ValueMachine
