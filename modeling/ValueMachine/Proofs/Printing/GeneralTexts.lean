import ValueMachine.Proofs.Json.GeneralForm
import ValueMachine.Proofs.Number.Signs
import ValueMachine.Proofs.Printing.Filling

/-!
# Numbers in general form

A number in general form is the decimal that is left of it after rounding to significant digits. It
is written with an exponent if it is very small or very large, and without zeros at its end.

Results:
* `isRounded_significant`: the digits that are written are those of the rounded number;
* `spellsAmount_general`: the text spells the rounded number;
* `general_spells_rounded`: what the general form of a double is.
-/

namespace ValueMachine.Number

open Json (IsDigits IsWhole)

/-! ## Rounding to significant digits -/

/-- A positive number rounded to `precision` significant digits, ties to even, is
`digits · 10 ^ (power - (precision - 1))`. The `power` is its decimal exponent. -/
structure IsRounded (q : ℚ) (precision digits : ℕ) (power : ℤ) : Prop where
  least : 10 ^ (precision - 1) ≤ digits
  most : digits < 10 ^ precision
  rounds : ∃ k, RoundsTo (q * 10 ^ ((precision : ℤ) - 1 - Int.log 10 q)) k ∧
    (digits : ℚ) * 10 ^ (power - ((precision : ℤ) - 1)) =
      k * 10 ^ (Int.log 10 q - ((precision : ℤ) - 1))

theorem isRounded_significant {num den precision : ℕ} (pos : 0 < num) (pos' : 0 < den)
    (some : 0 < precision) : IsRounded (num / den) precision
      (significant num den precision).digits (significant num den precision).exponent := by
  obtain ⟨least, most⟩ := digits_bounds pos pos' some
  obtain ⟨k, rounds⟩ := exists_rounded num den precision
  exact ⟨least, most, k, rounds, amount_significant pos pos' some rounds⟩

/-! ## Texts -/

/-- Digits after a point. The last one is not zero, and no point is written without digits. -/
inductive SpellsPlaces : List Char → List Char → Prop
  | none : SpellsPlaces [] []
  | digits {fraction : List Char} (is : IsDigits fraction) (last : fraction.getLast? ≠ some '0') :
    SpellsPlaces fraction ('.' :: fraction)

/-- An exponent has a sign and two digits at least. -/
inductive SpellsPower : ℤ → List Char → Prop
  | plus {digits : List Char} (is : IsDigits digits) (two : 2 ≤ digits.length) :
    SpellsPower (plainValue digits) ('e' :: '+' :: digits)
  | minus {digits : List Char} (is : IsDigits digits) (two : 2 ≤ digits.length) :
    SpellsPower (-(plainValue digits)) ('e' :: '-' :: digits)

/-- A decimal without its sign, in full or with an exponent. With an exponent there is one digit
before the point, which is not zero. -/
inductive SpellsAmount : ℚ → Option ℤ → List Char → Prop
  | plain {whole fraction places : List Char} (isWhole : IsWhole whole)
    (isPlaces : SpellsPlaces fraction places) :
    SpellsAmount (plainValue (whole ++ fraction) * 10 ^ (-(fraction.length : ℤ))) none
      (whole ++ places)
  | scientific {first : Char} {fraction places part : List Char} {power : ℤ}
    (digit : first.isDigit = true) (some : first ≠ '0') (isPlaces : SpellsPlaces fraction places)
    (isPower : SpellsPower power part) :
    SpellsAmount (plainValue (first :: fraction) * 10 ^ (power - fraction.length)) (.some power)
      (first :: places ++ part)

/-- Stripping leaves no zero at the end. -/
theorem getLast?_strip (d : Decimal) : d.strip.fraction.getLast? ≠ some '0' := by
  rw [Decimal.strip, List.getLast?_reverse]
  intro zero
  have stops := List.head?_dropWhile_not (· == '0') d.fraction.reverse
  rw [zero] at stops
  cases stops

/-- What is written of a decimal that is stripped. -/
theorem exists_spellsPlaces_strip (scaled places : ℕ) :
    let d := (Decimal.ofScaled scaled places).strip
    ∃ part, SpellsPlaces d.fraction part ∧ d.text = d.whole ++ part := by
  intro d
  by_cases none : d.fraction = []
  · refine ⟨[], ?_, ?_⟩
    · rw [none]
      exact .none
    · rw [Decimal.text, none, List.append_nil]
      rfl
  · refine ⟨'.' :: d.fraction, .digits ⟨none, fun c mem => ?_⟩ (getLast?_strip _), ?_⟩
    · exact Json.isDigit_of_mem_strip mem
    · rw [Decimal.text, if_neg (mt List.isEmpty_iff.mp none)]

theorem spellsPower_exponentText (power : ℤ) : SpellsPower power ('e' :: exponentText power) := by
  have is := Json.isDigits_padZeros 2 (Json.isDigits_digits power.natAbs)
  have two : 2 ≤ (padZeros 2 (digits power.natAbs)).length := by
    rw [padZeros, List.length_append, List.length_replicate]
    omega
  have value := Json.plainValue_padZeros 2 power.natAbs
  rw [exponentText]
  by_cases negative : power < 0
  · have spells := SpellsPower.minus is two
    rw [value, show -(power.natAbs : ℤ) = power by omega] at spells
    rwa [if_pos negative]
  · have spells := SpellsPower.plus is two
    rw [value, show (power.natAbs : ℤ) = power by omega] at spells
    rwa [if_neg negative]

/-- In full, a decimal spells its amount. -/
theorem spellsAmount_plain (scaled places : ℕ) :
    SpellsAmount (scaled * 10 ^ (-(places : ℤ))) none
      (Decimal.ofScaled scaled places).strip.text := by
  obtain ⟨part, isPlaces, text⟩ := exists_spellsPlaces_strip scaled places
  have amount := Decimal.amount_strip (Decimal.ofScaled scaled places)
  rw [Decimal.amount_ofScaled, Decimal.amount] at amount
  rw [text, ← amount]
  exact .plain (Json.isWhole_digits _) isPlaces

/-- The text of a digit. -/
theorem exists_digits_eq {n : ℕ} (pos : n ≠ 0) (lt : n < 10) :
    ∃ c, digits n = [c] ∧ c.isDigit = true ∧ c ≠ '0' := by
  have one : (significantDigits n).length ≤ 1 := (digitCount_le_iff n 1).mpr lt
  have head := head?_significantDigits n
  have digit : ∀ c ∈ significantDigits n, c.isDigit = true :=
    fun c => isDigit_of_mem_significantDigits
  obtain ⟨c, rest, eq⟩ := List.exists_cons_of_ne_nil (significantDigits_ne_nil pos)
  rw [eq] at one head digit
  obtain rfl : rest = [] := List.eq_nil_of_length_eq_zero (by simpa using one)
  refine ⟨c, ?_, digit c List.mem_cons_self, fun zero => head (by rw [zero]; rfl)⟩
  rw [digits, if_neg pos, eq]

/-- With an exponent, digits spell a decimal with one digit before the point. -/
theorem spellsAmount_scientific {scaled places : ℕ} (least : 10 ^ places ≤ scaled)
    (most : scaled < 10 ^ (places + 1)) (power : ℤ) :
    SpellsAmount (scaled * 10 ^ (power - places)) (some power)
      ((Decimal.ofScaled scaled places).strip.text ++ 'e' :: exponentText power) := by
  have pos : 0 < scaled / 10 ^ places := Nat.div_pos least (by positivity)
  have lt : scaled / 10 ^ places < 10 := by
    rw [Nat.div_lt_iff_lt_mul (by positivity), ← pow_succ']
    exact most
  obtain ⟨first, eq, digit, some⟩ := exists_digits_eq pos.ne' lt
  have whole : (Decimal.ofScaled scaled places).strip.whole = [first] := eq
  obtain ⟨part, isPlaces, text⟩ := exists_spellsPlaces_strip scaled places
  have amount := Decimal.amount_strip (Decimal.ofScaled scaled places)
  rw [Decimal.amount_ofScaled, Decimal.amount, whole, List.singleton_append] at amount
  have value : (scaled : ℚ) * 10 ^ (power - places) =
      plainValue (first :: (Decimal.ofScaled scaled places).strip.fraction) *
        10 ^ (power - (Decimal.ofScaled scaled places).strip.fraction.length) := by
    rw [sub_eq_neg_add, zpow_ten_add, ← mul_assoc, ← amount, mul_assoc, ← zpow_ten_add,
      neg_add_eq_sub]
  rw [text, whole, value]
  exact .scientific digit some isPlaces (spellsPower_exponentText power)

/-! ## The general form -/

section General

variable {x : Float} {negative : Bool} {mantissa precision : ℕ} {exponent : ℤ}

/-- The general form of a positive number spells the number rounded to significant digits. -/
theorem spellsAmount_generalMagnitude (nonzero : mantissa ≠ 0) (some : 0 < precision) :
    ∃ digits power, IsRounded (mantissa * 2 ^ exponent) precision digits power ∧
      SpellsAmount (digits * 10 ^ (power - ((precision : ℤ) - 1)))
        (if power < -4 ∨ (precision : ℤ) ≤ power then .some power else none)
        (generalMagnitude mantissa exponent precision) := by
  have pos := @numerator_pos _ exponent nonzero
  have pos' := denominator_pos exponent
  have rounded := @isRounded_significant _ _ precision pos pos' some
  have scaled_eq := @scaled_eq_digits _ _ precision pos pos' some
  rw [numerator_div_denominator] at rounded
  refine ⟨_, _, rounded, ?_⟩
  rw [generalMagnitude]
  dsimp only
  generalize significant (numerator mantissa exponent) (denominator exponent) precision = s
    at rounded scaled_eq ⊢
  split
  · have most : s.digits < 10 ^ (precision - 1 + 1) := by
      rw [Nat.sub_add_cancel some]
      exact rounded.most
    have spells := spellsAmount_scientific rounded.least most s.exponent
    rwa [Nat.cast_sub some, Nat.cast_one] at spells
  · next inside =>
    rw [not_or, not_le] at inside
    have spells := spellsAmount_plain s.digits ((precision : ℤ) - 1 - s.exponent).toNat
    rw [scaled_eq inside.2]
    rwa [Int.toNat_of_nonneg (by omega), neg_sub] at spells

/-- An amount does not begin with a sign. -/
theorem SpellsAmount.head?_ne {q : ℚ} {power : Option ℤ} {text : List Char}
    (spells : SpellsAmount q power text) : text.head? ≠ some '-' := by
  cases spells with
  | plain isWhole isPlaces =>
    obtain ⟨⟨some, digits⟩, -⟩ := isWhole
    obtain ⟨c, rest, rfl⟩ := List.exists_cons_of_ne_nil some
    intro minus
    have digit := digits c List.mem_cons_self
    obtain rfl : c = '-' := Option.some.inj minus
    cases digit
  | scientific digit some isPlaces isPower =>
    intro minus
    obtain rfl := Option.some.inj minus
    cases digit

/-- The general form of a double that is not zero, with at most 1000 significant digits, spells the
exact value of the double, rounded to so many digits. There is an exponent exactly if that of the
rounded number is below `-4` or not below the number of digits, and a minus sign exactly if the
double is negative. -/
theorem general_spells_rounded (h : read x = .finite negative mantissa exponent)
    (nonzero : mantissa ≠ 0) (few : precision ≤ 1000) :
    ∃ digits power amount text,
      IsRounded (mantissa * 2 ^ exponent) (max precision 1) digits power ∧
      SpellsAmount (digits * 10 ^ (power - ((max precision 1 : ℕ) - 1 : ℤ)))
        (if power < -4 ∨ (max precision 1 : ℕ) ≤ power then some power else none) amount ∧
      general? x precision = some text ∧ text = signText negative ++ amount ∧
      (text.head? = some '-' ↔ x < 0.0) := by
  have some : 0 < max precision 1 := by omega
  have own : min (max precision 1) allDigits = max precision 1 := by
    have : allDigits = 1100 := rfl
    omega
  have text : general x precision =
      signText negative ++ generalMagnitude mantissa exponent (max precision 1) := by
    rw [general, h]
    dsimp only
    rw [if_neg nonzero, own]
  obtain ⟨digits, power, rounded, spells⟩ :=
    @spellsAmount_generalMagnitude mantissa _ exponent nonzero some
  refine ⟨digits, power, _, _, rounded, spells, general?_eq x ?_, text, ?_⟩
  · have : Printing.countLimit = 9999 := rfl
    omega
  · rw [lt_zero_iff, h, text]
    cases negative with
    | false => simpa [signText, Reading.IsNegative] using spells.head?_ne
    | true => simp [signText, Reading.IsNegative, nonzero]

end General

/-- `-999.5` is the tie between `-999` and `-1000`, so it carries into the exponent. -/
theorem general_spells_rounded_carry :
    read (-999.5) = .finite true 8791694975696896 (-43) ∧
    general? (-999.5) 3 = some "-1e+03".toList ∧
    ∃ digits power amount text,
      IsRounded (8791694975696896 * 2 ^ (-43 : ℤ)) (max 3 1) digits power ∧
      SpellsAmount (digits * 10 ^ (power - ((max 3 1 : ℕ) - 1 : ℤ)))
        (if power < -4 ∨ (max 3 1 : ℕ) ≤ power then some power else none) amount ∧
      general? (-999.5) 3 = some text ∧ text = signText true ++ amount ∧
      (text.head? = some '-' ↔ (-999.5 : Float) < 0.0) := by
  have reads : read (-999.5) = .finite true 8791694975696896 (-43) := by decide +kernel
  refine ⟨reads, by decide +kernel, ?_⟩
  exact_mod_cast general_spells_rounded reads (by decide) (by decide)

end ValueMachine.Number
