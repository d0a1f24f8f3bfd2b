import ValueMachine.Proofs.Json.Grammar
import ValueMachine.Proofs.Number.CorrectRounding

/-!
# The grammar of numerals

The texts that are numerals, as a relation apart from any reader, and the doubles that they stand for.
A numeral is read to its end, and if it is followed by something else then at least as far.

Results:
* `scan_of_spells`: a numeral is read as what it spells;
* `scan_append_of_spells`: reading does not stop before the end of a numeral;
* `denotes_value`: the double that a numeral is read as.
-/

namespace ValueMachine.Number

open Json (IsDigits SpellsExponent)
open Numeral

/-! ## Texts -/

/-- The parts of a numeral. -/
inductive Written where
  | nan
  | infinite (negative : Bool)
  | decimal (negative : Bool) (whole fraction : List Char) (exponent : Option (Bool × List Char))

inductive SpellsSign : Bool → List Char → Prop
  | none : SpellsSign false []
  | plus : SpellsSign false ['+']
  | minus : SpellsSign true ['-']

/-- A word, in any letter case. -/
def IsWord (word : String) (text : List Char) : Prop := text.map Char.toLower = word.toList

instance (word : String) (text : List Char) : Decidable (IsWord word text) :=
  inferInstanceAs (Decidable (_ = _))

/-- Digits with an optional point, at least one digit on either side of it. -/
inductive SpellsDigits : List Char → List Char → List Char → Prop
  | plain {whole : List Char} (is : IsDigits whole) : SpellsDigits whole [] whole
  | point {whole fraction : List Char} (is : IsDigits (whole ++ fraction)) :
    SpellsDigits whole fraction (whole ++ '.' :: fraction)

inductive SpellsNumeral : Written → List Char → Prop
  | nan {negative : Bool} {sign word : List Char} (isSign : SpellsSign negative sign)
    (isWord : IsWord "nan" word) : SpellsNumeral .nan (sign ++ word)
  | infinite {negative : Bool} {sign word : List Char} (isSign : SpellsSign negative sign)
    (isWord : IsWord "infinity" word ∨ IsWord "inf" word) :
    SpellsNumeral (.infinite negative) (sign ++ word)
  | decimal {negative : Bool} {whole fraction sign digits part : List Char}
    {exponent : Option (Bool × List Char)} (isSign : SpellsSign negative sign)
    (isDigits : SpellsDigits whole fraction digits) (isExponent : SpellsExponent exponent part) :
    SpellsNumeral (.decimal negative whole fraction exponent) (sign ++ (digits ++ part))

/-! ## Values -/

/-- The power of ten that an exponent stands for. -/
def exponentPower : Option (Bool × List Char) → ℤ
  | none => 0
  | some (negative, digits) => if negative then -(plainValue digits : ℤ) else plainValue digits

/-- The double that a numeral stands for: a decimal is correctly rounded. -/
inductive Denotes : Written → Float → Prop
  | nan {x : Float} (reads : read x = .nan) : Denotes .nan x
  | infinite {negative : Bool} {x : Float} (reads : read x = .infinite negative) :
    Denotes (.infinite negative) x
  | decimal {negative : Bool} {whole fraction : List Char} {exponent : Option (Bool × List Char)}
    {x : Float} (nearest : IsNearest negative
      (plainValue (whole ++ fraction) * 10 ^ (exponentPower exponent - fraction.length)) x) :
    Denotes (.decimal negative whole fraction exponent) x

/-- What is read of a numeral. -/
def Written.numeral : Written → Numeral
  | .nan => .nan
  | .infinite negative => .infinite negative
  | .decimal negative whole fraction exponent =>
    .decimal negative (whole ++ fraction) (exponentPower exponent - fraction.length)

/-! ## The value of a numeral -/

theorem SpellsDigits.isDigits {whole fraction digits : List Char}
    (spells : SpellsDigits whole fraction digits) : IsDigits (whole ++ fraction) := by
  cases spells with
  | plain is => rwa [List.append_nil]
  | point is => exact is

/-- The double that a numeral is read as is the one that it stands for. -/
theorem denotes_value {n : Written} {text : List Char} (spells : SpellsNumeral n text) :
    Denotes n n.numeral.value := by
  cases spells with
  | nan isSign isWord => exact .nan (by decide +kernel)
  | infinite isSign isWord => exact .infinite (read_infinity _)
  | decimal isSign isDigits isExponent =>
    exact .decimal (isNearest_ofDecimal _ _ isDigits.isDigits.2)

/-! ## Reading to the end -/

section Reading

variable (rest : List Char)

theorem scanDigits_append_digits {digits : List Char} (is : ∀ c ∈ digits, c.isDigit = true) :
    scanDigits (digits ++ rest) = (digits ++ (scanDigits rest).1, (scanDigits rest).2) := by
  rw [scanDigits, List.takeWhile_append_of_pos is, List.dropWhile_append_of_pos is]
  rfl

theorem scanDigits_of_ends {text : List Char} (ends : ∀ c ∈ text.head?, c.isDigit = false) :
    scanDigits text = ([], text) := by
  cases text with
  | nil => rfl
  | cons c text => simp [scanDigits, ends c rfl]

/-- Digits are taken off up to what is no digit. -/
theorem scanDigits_append_of_ends {digits text : List Char} (is : ∀ c ∈ digits, c.isDigit = true)
    (ends : ∀ c ∈ text.head?, c.isDigit = false) : scanDigits (digits ++ text) = (digits, text) := by
  rw [scanDigits_append_digits text is, scanDigits_of_ends ends, List.append_nil]

theorem scanDigits_suffix : (scanDigits rest).2 <:+ rest := List.dropWhile_suffix _

theorem scanSign_suffix : (scanSign rest).2 <:+ rest := by
  rw [scanSign.eq_def]
  split
  · exact List.suffix_cons _ _
  · exact List.suffix_cons _ _
  · exact List.suffix_rfl

/-- A sign is taken off a text that has no other. -/
theorem scanSign_append {negative : Bool} {sign body : List Char} (isSign : SpellsSign negative sign)
    (noPlus : body.head? ≠ some '+') (noMinus : body.head? ≠ some '-') :
    scanSign (sign ++ body) = (negative, body) := by
  cases isSign with
  | none =>
    rw [List.nil_append, scanSign.eq_def]
    split
    · exact absurd rfl noPlus
    · exact absurd rfl noMinus
    · rfl
  | plus => rfl
  | minus => rfl

theorem scanFraction_suffix : (scanFraction rest).2 <:+ rest := by
  rw [scanFraction.eq_def]
  split
  · exact (scanDigits_suffix _).trans (List.suffix_cons _ _)
  · exact List.suffix_rfl

theorem scanExponent_suffix : (scanExponent rest).2 <:+ rest := by
  rw [scanExponent.eq_def]
  split
  · exact List.suffix_rfl
  · split
    · dsimp only
      split
      · exact List.suffix_rfl
      · exact ((scanDigits_suffix _).trans (scanSign_suffix _)).trans (List.suffix_cons _ _)
    · exact List.suffix_rfl

/-- An exponent takes the digits that follow it as its own. -/
theorem scanExponent_append {negative : Bool} {digits part : List Char}
    (spells : SpellsExponent (some (negative, digits)) part) :
    scanExponent (part ++ rest) =
      (exponentPower (some (negative, digits ++ (scanDigits rest).1)), (scanDigits rest).2) := by
  have scans {mark : Char} {text : List Char} (isMark : mark = 'e' ∨ mark = 'E')
      (is : IsDigits digits) (signed : scanSign text = (negative, digits ++ rest)) :
      scanExponent (mark :: text) =
        (exponentPower (some (negative, digits ++ (scanDigits rest).1)), (scanDigits rest).2) := by
    rw [scanExponent, if_pos isMark, signed]
    dsimp only
    rw [scanDigits_append_digits rest is.2]
    dsimp only
    rw [if_neg (by simp [is.1]), digitsValue_eq]
    rfl
  cases spells with
  | digits isMark is =>
    exact scans isMark is (scanSign_append .none (is.head?_ne rfl rest) (is.head?_ne rfl rest))
  | plus isMark is => exact scans isMark is rfl
  | minus isMark is => exact scans isMark is rfl

/-- An exponent begins with its mark. -/
theorem head?_of_spellsExponent {parts : Bool × List Char} {part : List Char}
    (spells : SpellsExponent (some parts) part) :
    (part ++ rest).head? = some 'e' ∨ (part ++ rest).head? = some 'E' := by
  cases spells with
  | digits isMark is => exact isMark.imp (congrArg some) (congrArg some)
  | plus isMark is => exact isMark.imp (congrArg some) (congrArg some)
  | minus isMark is => exact isMark.imp (congrArg some) (congrArg some)

theorem scanFraction_of_head?_ne {text : List Char} (noPoint : text.head? ≠ some '.') :
    scanFraction text = ([], text) := by
  rw [scanFraction.eq_def]
  split
  · exact absurd rfl noPoint
  · rfl

/-- The parts of a decimal, taken off one after the other. -/
theorem scanDecimal?_eq {text whole afterWhole fraction afterFraction after : List Char} {power : ℤ}
    (some : whole ++ fraction ≠ []) (scansWhole : scanDigits text = (whole, afterWhole))
    (scansFraction : scanFraction afterWhole = (fraction, afterFraction))
    (scansExponent : scanExponent afterFraction = (power, after)) :
    scanDecimal? text = .some (whole ++ fraction, power - fraction.length, after) := by
  rw [scanDecimal?, scansWhole]
  dsimp only
  rw [scansFraction]
  dsimp only
  rw [scansExponent, if_neg]
  simpa using some

/-- Without an exponent, what follows may go on with digits, a point and an exponent. -/
theorem scanDecimal?_append_of_none {whole fraction digits : List Char}
    (isDigits : SpellsDigits whole fraction digits) :
    ∃ ds power after, scanDecimal? (digits ++ rest) = some (ds, power, after) ∧ after <:+ rest ∧
      (rest = [] → ds = whole ++ fraction ∧ power = -(fraction.length : ℤ)) := by
  have nonempty := isDigits.isDigits.1
  have all := List.forall_mem_append.mp isDigits.isDigits.2
  cases isDigits with
  | plain is =>
    refine ⟨_, _, _, scanDecimal?_eq ?_ (scanDigits_append_digits rest is.2) rfl rfl, ?_, ?_⟩
    · simp [is.1]
    · exact ((scanExponent_suffix _).trans (scanFraction_suffix _)).trans (scanDigits_suffix _)
    · rintro rfl
      simp [scanDigits]
  | point is =>
    have point : scanDigits (whole ++ '.' :: (fraction ++ rest)) =
      (whole, '.' :: (fraction ++ rest)) :=
      scanDigits_append_of_ends all.1 (by rintro c ⟨⟩; rfl)
    rw [List.append_assoc, List.cons_append]
    refine ⟨_, _, _, scanDecimal?_eq ?_ point (scanDigits_append_digits rest all.2) rfl, ?_, ?_⟩
    · rw [← List.append_assoc]
      exact List.append_ne_nil_of_left_ne_nil nonempty _
    · exact (scanExponent_suffix _).trans (scanDigits_suffix _)
    · rintro rfl
      simp [scanDigits]

/-- An exponent is all that goes on in what follows, with further digits. -/
theorem scanDecimal?_append_of_some {whole fraction digits part written : List Char}
    {negative : Bool} (isDigits : SpellsDigits whole fraction digits)
    (isExponent : SpellsExponent (some (negative, written)) part) :
    scanDecimal? (digits ++ (part ++ rest)) = some (whole ++ fraction,
      exponentPower (some (negative, written ++ (scanDigits rest).1)) - fraction.length,
      (scanDigits rest).2) := by
  have nonempty := isDigits.isDigits.1
  have all := List.forall_mem_append.mp isDigits.isDigits.2
  have head := head?_of_spellsExponent rest isExponent
  have ends : ∀ c ∈ (part ++ rest).head?, c.isDigit = false := by
    rcases head with eq | eq <;> rw [eq] <;> rintro c ⟨⟩ <;> rfl
  have scansExponent := scanExponent_append rest isExponent
  cases isDigits with
  | plain is =>
    have noPoint : (part ++ rest).head? ≠ some '.' := by
      rcases head with eq | eq <;> rw [eq] <;> decide
    exact scanDecimal?_eq nonempty (scanDigits_append_of_ends all.1 ends)
      (scanFraction_of_head?_ne noPoint) scansExponent
  | point is =>
    have point : scanDigits (whole ++ '.' :: (fraction ++ (part ++ rest))) =
      (whole, '.' :: (fraction ++ (part ++ rest))) :=
      scanDigits_append_of_ends all.1 (by rintro c ⟨⟩; rfl)
    rw [List.append_assoc, List.cons_append]
    exact scanDecimal?_eq nonempty point (scanDigits_append_of_ends all.2 ends) scansExponent

/-- A decimal is taken off at least to its end. -/
theorem scanDecimal?_append {whole fraction digits part : List Char}
    {exponent : Option (Bool × List Char)} (isDigits : SpellsDigits whole fraction digits)
    (isExponent : SpellsExponent exponent part) :
    ∃ ds power after, scanDecimal? (digits ++ (part ++ rest)) = some (ds, power, after) ∧
      after <:+ rest ∧
      (rest = [] → ds = whole ++ fraction ∧ power = exponentPower exponent - fraction.length) := by
  rcases exponent with _ | ⟨negative, written⟩
  · cases isExponent
    rw [List.nil_append, exponentPower, zero_sub]
    exact scanDecimal?_append_of_none rest isDigits
  · refine ⟨_, _, _, scanDecimal?_append_of_some rest isDigits isExponent, scanDigits_suffix rest,
      ?_⟩
    rintro rfl
    simp [scanDigits]

/-! ## Words -/

theorem scanWord?_eq (word : String) (text : List Char) : scanWord? word text =
    if IsWord word (text.take word.length) then some (text.drop word.length) else none := rfl

theorem scanWord?_append {word : String} {text : List Char} (is : IsWord word text) :
    scanWord? word (text ++ rest) = some rest := by
  have length : text.length = word.length := by
    rw [← String.length_toList, ← is, List.length_map]
  rw [scanWord?_eq, ← length, List.take_left, List.drop_left, if_pos is]

/-- A word that is not shorter than a text is taken off at least to its end. -/
theorem scanWord?_suffix {word : String} {text after : List Char}
    (le : text.length ≤ word.length) (scans : scanWord? word (text ++ rest) = some after) :
    after <:+ rest := by
  rw [scanWord?_eq] at scans
  split at scans
  · rw [← Option.some.inj scans, List.drop_append, List.drop_eq_nil_of_le le, List.nil_append]
    exact List.drop_suffix _ _
  · cases scans

/-- No word is taken off a text that begins otherwise. -/
theorem scanWord?_of_head?_ne {word : String} {text : List Char} {letter : Char}
    (first : word.toList.head? = some letter)
    (other : text.head?.map Char.toLower ≠ some letter) : scanWord? word text = none := by
  obtain ⟨letters, word_eq⟩ := List.head?_eq_some_iff.mp first
  have length : word.length = letters.length + 1 := by
    rw [← String.length_toList, word_eq, List.length_cons]
  rw [scanWord?_eq, length, if_neg]
  intro eq
  rw [IsWord, word_eq] at eq
  cases text with
  | nil => cases eq
  | cons c text =>
    rw [List.take_succ_cons, List.map_cons] at eq
    exact other (congrArg some (List.cons.inj eq).1)

/-- How a word begins. -/
theorem head?_of_isWord {word : String} {text : List Char} {letter : Char} (is : IsWord word text)
    (first : word.toList.head? = some letter) :
    (text ++ rest).head?.map Char.toLower = some letter := by
  cases text with
  | nil =>
    rw [← is] at first
    cases first
  | cons c text =>
    rw [← is] at first
    exact first

theorem toLower_of_isDigit {c : Char} (digit : c.isDigit = true) : c.toLower = c := by
  have upper : c.val ≤ '9'.val := by
    simp only [Char.isDigit, Bool.and_eq_true, decide_eq_true_eq] at digit
    exact digit.2
  have notUpper : ¬(c.val ≥ 'A'.val ∧ c.val ≤ 'Z'.val) := fun letter =>
    absurd (UInt32.le_trans letter.1 upper) (by decide)
  exact dif_neg notUpper

/-- How digits with a point begin. -/
theorem head?_of_spellsDigits {whole fraction digits : List Char}
    (spells : SpellsDigits whole fraction digits) :
    ∃ c, (digits ++ rest).head?.map Char.toLower = some c ∧ (c.isDigit = true ∨ c = '.') := by
  have digit {c : Char} {text : List Char} (is : c.isDigit = true) :
      ((c :: text).head?.map Char.toLower = some c) := by
    rw [List.head?_cons, Option.map_some, toLower_of_isDigit is]
  cases spells with
  | plain is =>
    obtain ⟨c, whole, rfl⟩ := List.exists_cons_of_ne_nil is.1
    have first := is.2 c List.mem_cons_self
    exact ⟨c, digit first, .inl first⟩
  | point is =>
    cases whole with
    | nil => exact ⟨'.', rfl, .inr rfl⟩
    | cons c whole =>
      have first := is.2 c List.mem_cons_self
      exact ⟨c, digit first, .inl first⟩

theorem head?_ne_of_toLower {text : List Char} {c letter : Char}
    (head : text.head?.map Char.toLower = some letter) (other : c.toLower ≠ letter) :
    text.head? ≠ some c := by
  intro eq
  rw [eq] at head
  exact other (Option.some.inj head)

/-! ## Numerals -/

theorem scan_append_nan {negative : Bool} {sign word : List Char}
    (isSign : SpellsSign negative sign) (isWord : IsWord "nan" word) :
    scan (sign ++ word ++ rest) = some (.nan, rest) := by
  have head := head?_of_isWord rest isWord (show _ = some 'n' from rfl)
  have signed := scanSign_append isSign (head?_ne_of_toLower head (by decide))
    (head?_ne_of_toLower head (by decide))
  have other : (word ++ rest).head?.map Char.toLower ≠ some 'i' := by
    rw [head]
    decide
  rw [List.append_assoc, scan, signed]
  dsimp only
  rw [scanWord?_of_head?_ne rfl other, scanWord?_of_head?_ne rfl other,
    scanWord?_append rest isWord]

/-- The longer word may go on in what follows the shorter one. -/
theorem scan_append_infinite {negative : Bool} {sign word : List Char}
    (isSign : SpellsSign negative sign) (isWord : IsWord "infinity" word ∨ IsWord "inf" word) :
    ∃ after, scan (sign ++ word ++ rest) = some (.infinite negative, after) ∧ after <:+ rest := by
  have head : (word ++ rest).head?.map Char.toLower = some 'i' :=
    isWord.elim (head?_of_isWord rest · rfl) (head?_of_isWord rest · rfl)
  have signed := scanSign_append isSign (head?_ne_of_toLower head (by decide))
    (head?_ne_of_toLower head (by decide))
  rw [List.append_assoc, scan, signed]
  dsimp only
  rcases isWord with long | short
  · rw [scanWord?_append rest long]
    exact ⟨rest, rfl, List.suffix_rfl⟩
  · cases longer : scanWord? "infinity" (word ++ rest) with
    | some after =>
      have length : word.length = 3 := by
        rw [← List.length_map, short]
        rfl
      refine ⟨after, rfl, scanWord?_suffix rest ?_ longer⟩
      rw [length]
      decide
    | none =>
      rw [scanWord?_append rest short]
      exact ⟨rest, rfl, List.suffix_rfl⟩

theorem scan_append_decimal {negative : Bool} {whole fraction sign digits : List Char}
    (isSign : SpellsSign negative sign) (isDigits : SpellsDigits whole fraction digits)
    (part : List Char) : scan (sign ++ (digits ++ part) ++ rest) =
      (scanDecimal? (digits ++ (part ++ rest))).map fun (ds, power, after) =>
        (.decimal negative ds power, after) := by
  obtain ⟨c, head, kind⟩ := head?_of_spellsDigits (part ++ rest) isDigits
  have other {letter : Char} (noDigit : letter.isDigit = false) (noPoint : letter ≠ '.') :
      c ≠ letter := by
    rintro rfl
    rcases kind with digit | point
    · rw [noDigit] at digit
      cases digit
    · exact noPoint point
  have plus : (digits ++ (part ++ rest)).head? ≠ some '+' :=
    head?_ne_of_toLower head (other rfl (by decide)).symm
  have minus : (digits ++ (part ++ rest)).head? ≠ some '-' :=
    head?_ne_of_toLower head (other rfl (by decide)).symm
  have noInfinity : (digits ++ (part ++ rest)).head?.map Char.toLower ≠ some 'i' := by
    rw [head]
    exact fun eq => other rfl (by decide) (Option.some.inj eq)
  have noNan : (digits ++ (part ++ rest)).head?.map Char.toLower ≠ some 'n' := by
    rw [head]
    exact fun eq => other rfl (by decide) (Option.some.inj eq)
  rw [List.append_assoc, List.append_assoc, scan, scanSign_append isSign plus minus]
  dsimp only
  rw [scanWord?_of_head?_ne rfl noInfinity, scanWord?_of_head?_ne rfl noInfinity,
    scanWord?_of_head?_ne rfl noNan]

/-- A numeral is taken off at least to its end. -/
theorem scan_append_of_spells {n : Written} {text : List Char} (spells : SpellsNumeral n text) :
    ∃ m after, scan (text ++ rest) = some (m, after) ∧ after <:+ rest ∧
      (rest = [] → m = n.numeral) := by
  cases spells with
  | nan isSign isWord =>
    exact ⟨_, rest, scan_append_nan rest isSign isWord, List.suffix_rfl, fun _ => rfl⟩
  | infinite isSign isWord =>
    obtain ⟨after, scans, suffix⟩ := scan_append_infinite rest isSign isWord
    exact ⟨_, after, scans, suffix, fun _ => rfl⟩
  | @decimal negative _ _ _ _ _ _ isSign isDigits isExponent =>
    obtain ⟨ds, power, after, scans, suffix, exact⟩ := scanDecimal?_append rest isDigits isExponent
    refine ⟨.decimal negative ds power, after, ?_, suffix, fun none => ?_⟩
    · rw [scan_append_decimal rest isSign isDigits, scans]
      rfl
    · obtain ⟨rfl, rfl⟩ := exact none
      rfl

/-- A numeral is read as what it spells. -/
theorem scan_of_spells {n : Written} {text : List Char} (spells : SpellsNumeral n text) :
    scan text = some (n.numeral, []) := by
  obtain ⟨m, after, scans, suffix, eq⟩ := scan_append_of_spells [] spells
  rw [List.append_nil, eq rfl, List.suffix_nil.mp suffix] at scans
  exact scans

end Reading

end ValueMachine.Number
