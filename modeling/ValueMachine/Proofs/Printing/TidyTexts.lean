import ValueMachine.Proofs.Number.Magnitudes
import ValueMachine.Proofs.Number.NumeralGrammar
import ValueMachine.Proofs.Printing.GeneralTexts

/-!
# Numbers as they are printed

The printer has several forms to choose from, and it compares doubles to choose. Whatever it
chooses, the text is a decimal numeral, and the number that it stands for is close to the double.

Results:
* `SpellsSigned.eq_decimalValue`: the number that a decimal numeral stands for;
* `SpellsSigned.isNumeral`: the characters that it is written with;
* `IsRounded.abs_sub_le`: how close the general form is;
* `abs_cut_sub_le`: how close a cut decimal is that reads back as a close double;
* `tidy_spells_close`: the printed form of a finite double.
-/

namespace ValueMachine.Number

open Json (IsDigits)
open Numeral

/-! ## Values of numerals -/

/-- The power of ten after a mark. -/
def powerOf : List Char → ℤ
  | 'e' :: '+' :: digits => plainValue digits
  | 'e' :: '-' :: digits => -plainValue digits
  | _ => 0

/-- The number that a decimal numeral stands for. -/
def decimalValue (text : List Char) : ℚ :=
  let (negative, unsigned) := scanSign text
  let (whole, afterWhole) := scanDigits unsigned
  let (fraction, after) := scanFraction afterWhole
  signOf negative * (plainValue (whole ++ fraction) * 10 ^ (powerOf after - fraction.length))

/-- A decimal with a minus sign if it is negative. -/
inductive SpellsSigned : ℚ → List Char → Prop
  | intro (negative : Bool) {q : ℚ} {power : Option ℤ} {amount : List Char}
    (spells : SpellsAmount q power amount) :
    SpellsSigned (signOf negative * q) (signText negative ++ amount)

theorem SpellsPower.powerOf_eq {power : ℤ} {part : List Char} (is : SpellsPower power part) :
    powerOf part = power := by
  cases is <;> rfl

/-- Places end where no digit follows. -/
theorem SpellsPlaces.scans {fraction places : List Char} (is : SpellsPlaces fraction places)
    (rest : List Char) (ends : ∀ c ∈ rest.head?, c.isDigit = false ∧ c ≠ '.') :
    scanFraction (places ++ rest) = (fraction, rest) ∧
      ∀ c ∈ (places ++ rest).head?, c.isDigit = false := by
  cases is with
  | none =>
    exact ⟨scanFraction_of_head?_ne fun point => (ends _ point).2 rfl,
      fun c mem => (ends c mem).1⟩
  | digits is last =>
    refine ⟨?_, by rintro c ⟨⟩; rfl⟩
    show scanDigits (fraction ++ rest) = _
    rw [scanDigits_append_digits rest is.2, scanDigits_of_ends fun c mem => (ends c mem).1,
      List.append_nil]

/-- The digits of an amount are taken off one part after the other. -/
theorem SpellsAmount.scans {q : ℚ} {power : Option ℤ} {text : List Char}
    (spells : SpellsAmount q power text) : ∃ whole afterWhole fraction after,
      scanDigits text = (whole, afterWhole) ∧ scanFraction afterWhole = (fraction, after) ∧
      q = plainValue (whole ++ fraction) * 10 ^ (powerOf after - fraction.length) := by
  cases spells with
  | @plain whole fraction places isWhole isPlaces =>
    obtain ⟨scansPlaces, ends⟩ := isPlaces.scans [] (by rintro c ⟨⟩)
    rw [List.append_nil] at scansPlaces ends
    refine ⟨whole, places, fraction, [], ?_, scansPlaces, ?_⟩
    · rw [scanDigits_append_digits _ isWhole.1.2, scanDigits_of_ends ends, List.append_nil]
    · rw [show powerOf [] = 0 from rfl, zero_sub]
  | @scientific first fraction places part power digit some isPlaces isPower =>
    obtain ⟨scansPlaces, ends⟩ := isPlaces.scans part (by
      cases isPower <;> rintro c ⟨⟩ <;> exact ⟨rfl, by decide⟩)
    have one : ∀ c ∈ [first], c.isDigit = true := List.forall_mem_singleton.mpr digit
    refine ⟨[first], places ++ part, fraction, part, ?_, scansPlaces, ?_⟩
    · have scansWhole := scanDigits_append_digits (places ++ part) one
      rwa [scanDigits_of_ends ends, List.append_nil] at scansWhole
    · rw [isPower.powerOf_eq, List.singleton_append]

theorem SpellsAmount.head?_isDigit {q : ℚ} {power : Option ℤ} {text : List Char}
    (spells : SpellsAmount q power text) : ∀ c ∈ text.head?, c.isDigit = true := by
  cases spells with
  | plain isWhole isPlaces =>
    obtain ⟨⟨some, digits⟩, -⟩ := isWhole
    obtain ⟨c, rest, rfl⟩ := List.exists_cons_of_ne_nil some
    rintro c ⟨⟩
    exact digits c List.mem_cons_self
  | scientific digit some isPlaces isPower =>
    rintro c ⟨⟩
    exact digit

/-- A numeral stands for one number. -/
theorem SpellsSigned.eq_decimalValue {q : ℚ} {text : List Char} (spells : SpellsSigned q text) :
    q = decimalValue text := by
  obtain @⟨negative, q, power, amount, spells⟩ := spells
  have isSign : SpellsSign negative (signText negative) := by
    cases negative
    · exact .none
    · exact .minus
  have notSign {c : Char} (other : c.isDigit = false) : amount.head? ≠ some c := fun head => by
    rw [spells.head?_isDigit c head] at other
    cases other
  obtain ⟨whole, afterWhole, fraction, after, scansWhole, scansFraction, rfl⟩ := spells.scans
  rw [decimalValue, scanSign_append isSign (notSign rfl) (notSign rfl)]
  dsimp only
  rw [scansWhole]
  dsimp only
  rw [scansFraction]

/-- A numeral has no other characters than those of numbers. -/
theorem SpellsSigned.isNumeral {q : ℚ} {text : List Char} (spells : SpellsSigned q text) :
    ∀ c ∈ text, Json.isNumeral c = true := by
  have all {digits : List Char} (is : ∀ c ∈ digits, c.isDigit = true) :
      ∀ c ∈ digits, Json.isNumeral c = true := fun c mem => Json.isNumeral_of_isDigit (is c mem)
  have inPlaces {fraction places : List Char} (is : SpellsPlaces fraction places) :
      ∀ c ∈ places, Json.isNumeral c = true := by
    cases is with
    | none => exact List.forall_mem_nil _
    | digits is last => exact List.forall_mem_cons.mpr ⟨rfl, all is.2⟩
  obtain ⟨negative, spells⟩ := spells
  refine List.forall_mem_append.mpr ⟨?_, ?_⟩
  · cases negative
    · exact List.forall_mem_nil _
    · exact List.forall_mem_singleton.mpr rfl
  cases spells with
  | plain isWhole isPlaces => exact List.forall_mem_append.mpr ⟨all isWhole.1.2, inPlaces isPlaces⟩
  | scientific digit some isPlaces isPower =>
    refine List.forall_mem_append.mpr ⟨List.forall_mem_cons.mpr ⟨?_, inPlaces isPlaces⟩, ?_⟩
    · exact Json.isNumeral_of_isDigit digit
    · cases isPower with
      | plus is two =>
        exact List.forall_mem_cons.mpr ⟨rfl, List.forall_mem_cons.mpr ⟨rfl, all is.2⟩⟩
      | minus is two =>
        exact List.forall_mem_cons.mpr ⟨rfl, List.forall_mem_cons.mpr ⟨rfl, all is.2⟩⟩

/-! ## Distances -/

section Distances

variable {x y : Float} {q : ℚ} {negative : Bool} {m : ℕ} {e : ℤ}

theorem abs_signOf_mul_sub (negative : Bool) (p q : ℚ) :
    |signOf negative * p - signOf negative * q| = |p - q| := by
  cases negative with
  | false => simp [signOf]
  | true => rw [signOf, if_pos rfl, neg_one_mul, neg_one_mul, neg_sub_neg, abs_sub_comm]

/-- Rounding to significant digits moves a number by half a unit of the last one at most. -/
theorem IsRounded.abs_sub_le {precision digits : ℕ} {power : ℤ} (pos : 0 < q)
    (rounded : IsRounded q precision digits power) :
    |digits * 10 ^ (power - ((precision : ℤ) - 1)) - q| ≤ 10 ^ (1 - (precision : ℤ)) / 2 * q := by
  obtain ⟨k, rounds, eq⟩ := rounded.rounds
  have lower : (10 : ℚ) ^ Int.log 10 q ≤ q := by
    exact_mod_cast Int.zpow_log_le_self (by norm_num) pos
  rw [eq, abs_sub_comm, abs_sub_mul_zpow, neg_sub]
  calc |q * 10 ^ ((precision : ℤ) - 1 - Int.log 10 q) - k| *
        10 ^ (Int.log 10 q - ((precision : ℤ) - 1))
      ≤ 1 / 2 * 10 ^ (Int.log 10 q - ((precision : ℤ) - 1)) :=
        mul_le_mul_of_nonneg_right rounds.within (zpow_ten_pos _).le
    _ = 10 ^ (1 - (precision : ℤ)) / 2 * 10 ^ Int.log 10 q := by
        rw [show Int.log 10 q - ((precision : ℤ) - 1) = 1 - (precision : ℤ) + Int.log 10 q by ring,
          zpow_ten_add]
        ring
    _ ≤ _ := mul_le_mul_of_nonneg_left lower (div_nonneg (zpow_ten_pos _).le two_pos.le)

/-- The general form is within half a unit of the last digit. -/
theorem exists_spells_general (reads : read x = .finite negative m e) :
    ∃ q, SpellsSigned q (general x standardPrecision) ∧
      |q - value x| ≤ 5 / 10 ^ 16 * |value x| := by
  rw [abs_value_of_finite reads, value_of_finite reads, general, reads]
  dsimp only
  by_cases zero : m = 0
  · refine ⟨signOf negative * (0 * 10 ^ (0 : ℤ)), ?_, by simp [zero]⟩
    rw [if_pos zero]
    exact .intro negative (spellsAmount_plain 0 0)
  · have pos : (0 : ℚ) < m * 2 ^ e :=
      mul_pos (by exact_mod_cast Nat.pos_of_ne_zero zero) (zpow_two_pos e)
    obtain ⟨digits, power, rounded, spells⟩ :=
      @spellsAmount_generalMagnitude m _ e zero (show 0 < standardPrecision by decide)
    have half : (10 : ℚ) ^ (1 - (standardPrecision : ℤ)) / 2 = 5 / 10 ^ 16 := by
      rw [standardPrecision]
      norm_num
    have close := rounded.abs_sub_le pos
    rw [half, ← abs_signOf_mul_sub negative] at close
    rw [if_neg zero]
    exact ⟨_, .intro negative spells, close⟩

theorem roundsTo_scaled (m : ℕ) (e : ℤ) (places : ℕ) :
    RoundsTo (m * 2 ^ e * 10 ^ places) (scaled (numerator m e) (denominator e) places) := by
  have rounds := roundsTo_roundDiv (numerator m e * tenPow places) (denominator_pos e)
  rwa [Nat.cast_mul, mul_div_right_comm, numerator_div_denominator, cast_tenPow] at rounds

/-- A whole number is written in full. -/
theorem spells_wholeText {n : ℕ} (reads : read x = .finite negative m e)
    (whole : m * 2 ^ e = (n : ℚ)) : SpellsSigned (value x) (wholeText x) := by
  have rounds := roundsTo_scaled m e 0
  rw [pow_zero, mul_one, whole] at rounds
  have own : RoundsTo (n : ℚ) n := .inl (by rw [sub_self, abs_zero]; norm_num)
  have spells := SpellsSigned.intro negative (spellsAmount_plain n 0)
  rw [Nat.cast_zero, neg_zero, zpow_zero, mul_one] at spells
  rw [value_of_finite reads, whole, wholeText, reads]
  dsimp only
  rw [fixedText, rounds.unique own]
  exact spells

/-- A number is rounded to a whole one. -/
theorem exists_round (finite : x.isFinite = true) : ∃ negative m e, ∃ n : ℕ,
    read (round x) = .finite negative m e ∧ m * 2 ^ e = (n : ℚ) := by
  obtain ⟨negative, m, e, reads⟩ := isFinite_iff.mp finite
  rw [round, whole, reads]
  dsimp only
  split
  · next large =>
    refine ⟨negative, m, e, m * 2 ^ e.toNat, reads, ?_⟩
    rw [Nat.cast_mul, Nat.cast_pow, Nat.cast_ofNat, ← zpow_natCast, Int.toNat_of_nonneg large]
  · next small =>
    have least : (2 * m + denominator e) / (2 * denominator e) ≤ 2 ^ 53 := by
      have two53 : m < 2 ^ 53 := (isCanonical_of_finite reads).small
      have some := denominator_pos e
      refine Nat.div_le_of_le_mul ?_
      nlinarith
    obtain ⟨finite', eq⟩ := value_nearest_natCast negative least
    obtain ⟨negative', m', e', reads'⟩ := isFinite_iff.mp finite'
    have size := abs_value_of_finite reads'
    rw [eq, abs_signOf_mul _ (Nat.cast_nonneg _)] at size
    exact ⟨negative', m', e', _, reads', size.symm⟩

/-! ### Cut decimals -/

/-- The number that is left of a number whose further places are dropped. -/
def cutAmount (m : ℕ) (e : ℤ) (places : ℕ) : ℚ := cutScaled m e places * 10 ^ (-(places : ℤ))

theorem cutAmount_eq (m : ℕ) (e : ℤ) (places : ℕ) :
    cutAmount m e places = cutScaled m e places / tenPow places := by
  rw [cutAmount, zpow_neg, zpow_natCast, cast_tenPow, div_eq_mul_inv]

theorem cutAmount_nonneg : 0 ≤ cutAmount m e places :=
  mul_nonneg (Nat.cast_nonneg _) (zpow_ten_pos _).le

/-- Rounding before the cut adds little. -/
theorem cutAmount_le (m : ℕ) (e : ℤ) (places : ℕ) : cutAmount m e places ≤ m * 2 ^ e + 1 := by
  have near := (abs_le.mp (roundsTo_scaled m e (places + guardPlaces)).within).1
  have whole : (cutScaled m e places : ℚ) * 100 ≤
      scaled (numerator m e) (denominator e) (places + guardPlaces) := by
    exact_mod_cast Nat.div_mul_le_self _ _
  have power : (1 : ℚ) ≤ 10 ^ places := one_le_pow₀ (by norm_num)
  have guard : (10 : ℚ) ^ (places + guardPlaces) = 10 ^ places * 100 := by
    rw [pow_add, guardPlaces]
    norm_num
  rw [guard] at near
  rw [cutAmount_eq, cast_tenPow, div_le_iff₀ (by positivity)]
  linarith

/-- A cut decimal is read back as the double nearest to it. -/
theorem isRounding_cutValue (reads : read x = .finite negative m e) (places : ℕ) :
    IsRounding (signOf negative * cutAmount m e places) (cutValue x places) := by
  rw [cutValue, reads, cutAmount_eq]
  exact isRounding_nearest_div negative _ (tenPow_pos places)

/-- A cut decimal that is read back as a close double is close. -/
theorem abs_cut_sub_le (reads : read x = .finite negative m e) (places : ℕ)
    (small : (m : ℚ) * 2 ^ e ≤ 10 ^ 15) (close : (cutValue x places - x).abs < 1e-15) :
    |signOf negative * cutAmount m e places - value x| ≤
      max (1 / 10 ^ 9) (5 / 10 ^ 16 * |value x|) := by
  have rounding := isRounding_cutValue reads places
  generalize amount_eq : signOf negative * cutAmount m e places = p at rounding ⊢
  have below : |p| < reach := by
    have high : (10 : ℚ) ^ 15 + 1 < reach := by decide +kernel
    rw [← amount_eq, abs_signOf_mul _ cutAmount_nonneg]
    linarith [cutAmount_le m e places]
  have far : |value (cutValue x places) - value x| < 1 / 10 ^ 15 :=
    abs_sub_lt_of_lt (rounding.isFinite below) (isFinite_iff.mpr ⟨_, _, _, reads⟩)
      (by decide +kernel) close
  have moved := abs_rounded_sub_le below
  rw [← rounding.2, abs_sub_comm] at moved
  have tiny : (2 : ℚ) ^ (-1075 : ℤ) ≤ 1 / 10 ^ 15 :=
    (zpow_le_zpow_right₀ one_le_two (show (-1075 : ℤ) ≤ -60 by decide)).trans (by norm_num)
  generalize (2 : ℚ) ^ (-1075 : ℤ) = least at moved tiny
  have distance := abs_sub_le p (value (cutValue x places)) (value x)
  have size : |p| ≤ |p - value x| + |value x| := by
    have triangle := abs_add_le (p - value x) (value x)
    rwa [sub_add_cancel] at triangle
  -- the double read back is off by less than either bound, the fixed one as long as `x` is small
  rcases le_or_gt |value x| (10 ^ 6) with low | high
  · refine le_max_of_le_left ?_
    linarith
  · refine le_max_of_le_right ?_
    linarith

theorem closePlaces?_close {fuel places found : ℕ} (h : closePlaces? x fuel places = some found) :
    (cutValue x found - x).abs < 1e-15 := by
  induction fuel generalizing places with
  | zero => cases h
  | succ fuel ih =>
    rw [closePlaces?] at h
    split at h
    · next close =>
      cases h
      exact close
    · exact ih h

end Distances

/-! ## The printed form -/

/-- Whatever form is chosen, it spells a number that is close. -/
theorem exists_spells_tidy {x : Float} (finite : x.isFinite = true) :
    ∃ q, SpellsSigned q (tidy x) ∧
      |q - value x| ≤ max (1 / 10 ^ 9) (5 / 10 ^ 16 * |value x|) := by
  obtain ⟨negative, m, e, reads⟩ := isFinite_iff.mp finite
  have general : ∃ q, SpellsSigned q (general x standardPrecision) ∧
      |q - value x| ≤ max (1 / 10 ^ 9) (5 / 10 ^ 16 * |value x|) := by
    obtain ⟨q, spells, close⟩ := exists_spells_general reads
    exact ⟨q, spells, le_max_of_le_right close⟩
  rw [tidy, reads]
  dsimp only
  split
  · next snaps =>
    rw [Bool.and_eq_true, decide_eq_true_iff] at snaps
    obtain ⟨negative', m', e', n, reads', whole⟩ := exists_round finite
    have near := abs_sub_lt_of_lt (q := 1 / 10 ^ 9) finite (isFinite_iff.mpr ⟨_, _, _, reads'⟩)
      (by decide +kernel) snaps.1
    rw [abs_sub_comm] at near
    exact ⟨_, spells_wholeText reads' whole, le_max_of_le_left near.le⟩
  split
  · exact general
  · next middle =>
    split
    · next places found =>
      have ten : value 1e15 = 10 ^ 15 := by decide +kernel
      obtain ⟨number, size⟩ := value_abs (read_ne_nan_of_isFinite finite)
      rw [Bool.or_eq_true, not_or, decide_eq_true_iff, decide_eq_true_iff,
        le_iff_value_le (by decide +kernel) number, size, ten, not_le,
        abs_value_of_finite reads] at middle
      exact ⟨_, .intro negative (spellsAmount_plain _ places),
        abs_cut_sub_le reads places middle.2.le (closePlaces?_close found)⟩
    · exact general

/-- The printed form of a finite double is a decimal numeral, and the number that it stands for is
within `10 ^ -9` of the double, or within `5 · 10 ^ -16` of its size where that is more. -/
theorem tidy_spells_close {x : Float} (finite : x.isFinite = true) :
    SpellsSigned (decimalValue (tidy x)) (tidy x) ∧
      |decimalValue (tidy x) - value x| ≤ max (1 / 10 ^ 9) (5 / 10 ^ 16 * |value x|) := by
  obtain ⟨q, spells, close⟩ := exists_spells_tidy finite
  rw [← spells.eq_decimalValue]
  exact ⟨spells, close⟩

/-- The sum of a tenth and a fifth is not three tenths, but it is printed so. -/
theorem tidy_spells_close_sum : (0.1 + 0.2 : Float).isFinite = true ∧
    tidy (0.1 + 0.2) = "0.3".toList ∧ decimalValue "0.3".toList = 3 / 10 ∧
    SpellsSigned (decimalValue (tidy (0.1 + 0.2))) (tidy (0.1 + 0.2)) ∧
    |decimalValue (tidy (0.1 + 0.2)) - value (0.1 + 0.2)| ≤
      max (1 / 10 ^ 9) (5 / 10 ^ 16 * |value (0.1 + 0.2)|) := by
  have finite : (0.1 + 0.2 : Float).isFinite = true := by decide +kernel
  exact ⟨finite, by decide +kernel, by decide +kernel, tidy_spells_close finite⟩

end ValueMachine.Number
