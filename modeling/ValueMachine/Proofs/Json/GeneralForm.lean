import ValueMachine.Proofs.Json.Readers
import ValueMachine.Proofs.Number.DecimalTexts
import ValueMachine.Proofs.Number.LeadingNumerals
import ValueMachine.Proofs.Number.Shortened
import ValueMachine.Text.Blank

/-!
# The general form of a number

The general form of a double is a number of JSON and a numeral. Both stand for the double that is
left after rounding to the significant digits that are written.

Results:
* `spellsNumber_general`: the number that the general form spells;
* `readNumber?_general`, `readWhole?_general`: how it is read;
* `read?_general`: the document that it is the text of;
* `reads_general_of_seventeen_le`: with seventeen digits nothing is lost.
-/

namespace ValueMachine.Json

open Number

/-! ## Texts -/

/-- The fraction of a decimal as it is written. -/
theorem exists_spellsFraction_strip (scaled places : ℕ) :
    let d := (Decimal.ofScaled scaled places).strip
    ∃ fraction part, SpellsFraction fraction part ∧ d.text = d.whole ++ part ∧
      fraction.getD [] = d.fraction := by
  intro d
  by_cases none : d.fraction.isEmpty = true
  · refine ⟨.none, [], .none, ?_, ?_⟩
    · rw [Decimal.text, if_pos none, List.append_nil]
    · rw [List.isEmpty_iff.mp none]
      rfl
  · refine ⟨some d.fraction, '.' :: d.fraction, .digits ⟨?_, fun c mem => ?_⟩, ?_, rfl⟩
    · rwa [List.isEmpty_iff] at none
    · exact isDigit_of_mem_strip mem
    · rw [Decimal.text, if_neg none]

/-- A decimal that is written with an exponent or without one is read as the nearest double. -/
theorem exists_spellsNumber_decimal (negative : Bool) (scaled places : ℕ)
    {exponent : Option (Bool × List Char)} {power : ℤ} {part : List Char}
    (isExponent : SpellsExponent exponent part)
    (power_eq : NumberText.exponentValue ⟨negative, [], none, exponent⟩ = power)
    {num den : ℕ} (pos : 0 < den)
    (value : (num : ℚ) / den = scaled * 10 ^ (power - places)) :
    ∃ n, SpellsNumber n (signText negative ++
        ((Decimal.ofScaled scaled places).strip.text ++ part)) ∧
      n.value = nearest negative num den := by
  obtain ⟨fraction, fractionText, isFraction, text, same⟩ :=
    exists_spellsFraction_strip scaled places
  refine ⟨⟨negative, digits (scaled / tenPow places), fraction, exponent⟩, ?_, ?_⟩
  · rw [text, ← List.append_assoc, ← List.append_assoc]
    exact .intro (isWhole_digits _) isFraction isExponent
  · have read : NumberText.value ⟨negative, digits (scaled / tenPow places), fraction, exponent⟩ =
        ofDecimal negative (digits (scaled / tenPow places) ++ fraction.getD [])
          (NumberText.exponentValue ⟨negative, [], none, exponent⟩ -
            (fraction.getD []).length) := rfl
    rw [read, power_eq, same]
    refine ofDecimal_eq_nearest negative ?_ pos ?_
    · intro c mem
      rcases List.mem_append.mp mem with mem | mem
      · exact isDigit_of_mem_digits mem
      · exact isDigit_of_mem_strip mem
    · have amount := Decimal.amount_strip (Decimal.ofScaled scaled places)
      rw [Decimal.amount_ofScaled, Decimal.amount] at amount
      rw [value, sub_eq_neg_add, zpow_ten_add, ← mul_assoc, ← amount, mul_assoc, ← zpow_ten_add,
        neg_add_eq_sub]
      rfl

/-- The text of an exponent. -/
theorem spellsExponent_exponentText (exponent : ℤ) :
    SpellsExponent (some (decide (exponent < 0), padZeros 2 (digits exponent.natAbs)))
      ('e' :: exponentText exponent) := by
  have is := isDigits_padZeros 2 (isDigits_digits exponent.natAbs)
  rw [exponentText]
  by_cases negative : exponent < 0
  · rw [if_pos negative, decide_eq_true negative]
    exact .minus (.inl rfl) is
  · rw [if_neg negative, decide_eq_false negative]
    exact .plus (.inl rfl) is

theorem plainValue_padZeros (width n : ℕ) : plainValue (padZeros width (digits n)) = n := by
  rw [padZeros, plainValue_append, plainValue_zeros fun c mem => List.eq_of_mem_replicate mem,
    plainValue_digits, Nat.zero_mul, Nat.zero_add]

theorem exponentValue_exponentText (negative : Bool) (exponent : ℤ) :
    NumberText.exponentValue ⟨negative, [], none,
      some (decide (exponent < 0), padZeros 2 (digits exponent.natAbs))⟩ = exponent := by
  rw [NumberText.exponentValue]
  dsimp only
  rw [digitsValue_eq, plainValue_padZeros]
  by_cases below : exponent < 0
  · rw [decide_eq_true below, if_pos rfl]
    omega
  · rw [decide_eq_false below, if_neg (by decide)]
    omega

/-! ## The general form -/

section General

variable {x : Float} {precision : ℕ}

/-- The general form of a double is a number of JSON, and stands for what is left of the double
after rounding it to so many digits. -/
theorem spellsNumber_general (finite : x.isFinite = true) (some : 0 < precision)
    (few : precision ≤ allDigits) :
    ∃ n, SpellsNumber n (general x precision) ∧ n.value = shortened x precision := by
  obtain ⟨negative, mantissa, exponent, h⟩ := isFinite_iff.mp finite
  have own : min (max precision 1) allDigits = precision := by omega
  rw [general, h]
  dsimp only
  rw [own]
  by_cases zero : mantissa = 0
  · subst zero
    have spells : SpellsNumber ⟨negative, ['0'], none, none⟩
        (signText negative ++ ['0'] ++ [] ++ []) := .intro (isWhole_digits 0) .none .none
    rw [List.append_nil, List.append_nil] at spells
    refine ⟨_, spells, ?_⟩
    rw [shortened_of_zero h, ← nearest_of_zero h 1]
    rfl
  · have pos := @numerator_pos _ exponent zero
    have pos' := denominator_pos exponent
    have scaled_eq := @scaled_eq_digits _ _ precision pos pos' some
    rw [if_neg zero, generalMagnitude, shortened, h]
    dsimp only
    generalize significant (numerator mantissa exponent) (denominator exponent) precision =
      rounded at scaled_eq
    have divided := decimal_div rounded.digits (rounded.exponent - ((precision : ℤ) - 1))
    split
    · exact exists_spellsNumber_decimal negative rounded.digits (precision - 1)
        (spellsExponent_exponentText rounded.exponent)
        (exponentValue_exponentText negative rounded.exponent) (tenPow_pos _)
        (by rw [divided, Nat.cast_sub some, Nat.cast_one])
    · next inside =>
      rw [not_or, not_le] at inside
      have none : NumberText.exponentValue ⟨negative, [], none, none⟩ = 0 := rfl
      have written := exists_spellsNumber_decimal negative rounded.digits
        ((precision : ℤ) - 1 - rounded.exponent).toNat .none none
        (tenPow_pos (-(rounded.exponent - ((precision : ℤ) - 1))).toNat)
        (by rw [divided, Int.toNat_of_nonneg (by omega)]; congr 2; ring)
      rw [List.append_nil] at written
      rw [scaled_eq inside.2]
      exact written

/-- The reader of JSON reads what is left of the double, unless it is infinite. -/
theorem readNumber?_general (finite : x.isFinite = true) (some : 0 < precision)
    (few : precision ≤ allDigits) :
    readNumber? .strict (general x precision) =
      if (shortened x precision).isInf then none else Option.some (shortened x precision, []) := by
  obtain ⟨n, spells, value⟩ := spellsNumber_general finite some few
  have read := readNumberText?_append spells delimits_nil
  rw [List.append_nil] at read
  rw [readNumber?, read, Option.bind_eq_bind, Option.bind_some]
  dsimp only
  rw [NumberText.value?, value]
  by_cases infinite : (shortened x precision).isInf = true <;> simp [infinite]

/-- The reader of numerals reads what is left of the double. -/
theorem readWhole?_general (finite : x.isFinite = true) (some : 0 < precision)
    (few : precision ≤ allDigits) :
    Number.readWhole? (general x precision) = Option.some (shortened x precision) := by
  obtain ⟨n, spells, value⟩ := spellsNumber_general finite some few
  rw [readWhole?_of_spells spells, value]

/-- So does any other that rounds correctly. -/
theorem numeral?_general {numeral? : List Char → Option Float} (strict : IsStrict numeral?)
    (finite : x.isFinite = true) (some : 0 < precision) (few : precision ≤ allDigits) :
    numeral? (general x precision) = Option.some (shortened x precision) := by
  obtain ⟨n, spells, -⟩ := spellsNumber_general finite some few
  rw [strict.eq_readWhole? (spellsNumeral_of_spellsNumber spells)]
  exact readWhole?_general finite some few

/-- The general form of a finite number has characters of numbers only. -/
theorem numerals_general (finite : x.isFinite = true) (some : 0 < precision)
    (few : precision ≤ allDigits) :
    ∃ c text, general x precision = c :: text ∧ ∀ d ∈ c :: text, isNumeral d = true := by
  obtain ⟨n, spells, -⟩ := spellsNumber_general finite some few
  have numerals := spells.numerals
  obtain ⟨c, text, eq, -⟩ := spells.exists_cons
  rw [eq] at numerals
  exact ⟨c, text, eq, numerals⟩

theorem textIsBlank_of_isNumeral {c : Char} (numeral : isNumeral c = true) :
    Text.isBlank c = false := by
  have visible : 0x21 ≤ c.toNat ∧ c.toNat ≤ 0x7E := by
    simp only [isNumeral, Char.isDigit, Bool.or_eq_true, Bool.and_eq_true, decide_eq_true_eq,
      beq_iff_eq] at numeral
    rcases numeral with ((((⟨low, high⟩ | rfl) | rfl) | rfl) | rfl) | rfl
    · have low : 48 ≤ c.toNat := low
      have high : c.toNat ≤ 57 := high
      omega
    all_goals decide
  obtain ⟨low, high⟩ := visible
  simp [Text.isBlank, Text.blankRanges]
  omega

/-- No blanks are in front of it. -/
theorem trimStart_general (finite : x.isFinite = true) (some : 0 < precision)
    (few : precision ≤ allDigits) :
    Text.trimStart (general x precision) = general x precision := by
  obtain ⟨c, text, eq, numerals⟩ := numerals_general finite some few
  rw [eq, Text.trimStart, List.dropWhile_cons_of_neg]
  rw [textIsBlank_of_isNumeral (numerals c List.mem_cons_self)]
  exact Bool.false_ne_true

theorem nesting_general (finite : x.isFinite = true) (some : 0 < precision)
    (few : precision ≤ allDigits) : nesting (general x precision) = 0 := by
  obtain ⟨c, text, eq, numerals⟩ := numerals_general finite some few
  have flat := nestingFrom_numeral 0 numerals []
  rw [List.append_nil] at flat
  rw [eq]
  exact flat

/-- A text that begins with a character of numbers can only be read as a number. -/
theorem read?_of_numeral {c : Char} (numeral : isNumeral c = true) (text : List Char) :
    Document.read? (c :: text) = (readNumber? .strict (c :: text)).bind fun p =>
      if (skipBlanks p.2).isEmpty then some (.number p.1) else none := by
  have other {d : Char} (no : isNumeral d = false) : c ≠ d := ne_of_isNumeral numeral no
  rw [Document.read?, skipBlanks_cons (isBlank_of_isNumeral numeral), readValue?,
    if_neg (other (by decide)), if_neg (other (by decide)), if_neg (other (by decide)),
    if_neg (other (by decide)), if_neg (other (by decide)), if_neg (other (by decide))]
  cases readNumber? .strict (c :: text) <;> rfl

/-- The general form is the text of a document, unless it is beyond all doubles. -/
theorem read?_general (finite : x.isFinite = true) (some : 0 < precision)
    (few : precision ≤ allDigits) :
    Document.read? (general x precision) =
      if (shortened x precision).isInf then none
      else Option.some (.number (shortened x precision)) := by
  obtain ⟨c, text, eq, numerals⟩ := numerals_general finite some few
  have read := readNumber?_general finite some few
  rw [eq] at read ⊢
  rw [read?_of_numeral (numerals c List.mem_cons_self), read]
  split <;> rfl

/-- Any reader that rounds correctly reads it so. -/
theorem IsReader.read?_general {read? : List Char → Option Document}
    {number? : NumberText → Option Float} (reader : IsReader read? number?)
    (rounding : IsRounding number?) (finite : x.isFinite = true) (some : 0 < precision)
    (few : precision ≤ allDigits) :
    read? (general x precision) =
      if (shortened x precision).isInf then none
      else Option.some (.number (shortened x precision)) := by
  have agrees := reader.merged_read? rounding (general x precision)
  rw [Json.read?_general finite some few] at agrees
  split_ifs at agrees ⊢ with infinite
  · exact Option.map_eq_none_iff.mp agrees
  · obtain ⟨d, reads, merged⟩ := Option.map_eq_some_iff.mp agrees
    rw [reads, eq_number_of_merged merged]

/-- With seventeen digits both readers read the double that was written. -/
theorem reads_general_of_seventeen_le (finite : x.isFinite = true) (enough : 17 ≤ precision)
    (few : precision ≤ allDigits) :
    Number.readWhole? (general x precision) = some x ∧
      Document.read? (general x precision) = some (.number x) := by
  obtain ⟨negative, mantissa, exponent, h⟩ := isFinite_iff.mp finite
  have same : shortened x precision = x := shortened_of_seventeen_le h enough
  have bounded : ¬x.isInf = true := by
    rw [isInf_iff, h]
    exact nofun
  have pos : 0 < precision := by omega
  rw [readWhole?_general finite pos few, read?_general finite pos few, same, if_neg bounded]
  exact ⟨rfl, rfl⟩

end General

end ValueMachine.Json
