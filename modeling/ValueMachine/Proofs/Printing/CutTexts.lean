import ValueMachine.Proofs.Printing.TidyTexts

/-!
# Numbers cut to a fixed number of places

A number is rounded to two places more than are kept, and then cut. The rounding is meant for what a
double adds to a decimal, but it can carry into the places that are kept. It does so if the decimal
goes on with 995 or more there, which no double is on the wrong side of.

Results:
* `IsNearest.isHalfBit`: how far a double is from the number that it is nearest to;
* `IsHalfBit.lt_of_apart`: a double does not pass the bound from which rounding carries;
* `cutScaled_of_nearest`: what is left of a decimal;
* `cut_keeps_or_carries`: the text of the cut decimal, by itself and in a template.
-/

namespace ValueMachine.Number

open Json (IsDigits IsWhole)

/-! ## Texts -/

/-- A decimal of some units of the last place, with a fixed number of places. There is no point
without places. -/
inductive SpellsFixed : ℕ → ℕ → List Char → Prop
  | whole {whole : List Char} (isWhole : IsWhole whole) : SpellsFixed (plainValue whole) 0 whole
  | point {whole fraction : List Char} (isWhole : IsWhole whole) (isFraction : IsDigits fraction) :
    SpellsFixed (plainValue (whole ++ fraction)) fraction.length (whole ++ '.' :: fraction)

/-- A text stands for one decimal. -/
theorem SpellsFixed.units_eq {units places : ℕ} {text : List Char}
    (spells : SpellsFixed units places text) : units = plainValue (text.filter Char.isDigit) := by
  cases spells with
  | whole isWhole => rw [List.filter_eq_self.mpr isWhole.1.2]
  | point isWhole isFraction =>
    rw [List.filter_append, List.filter_cons_of_neg (by decide),
      List.filter_eq_self.mpr isWhole.1.2, List.filter_eq_self.mpr isFraction.2]

theorem spellsFixed_ofScaled (units places : ℕ) :
    SpellsFixed units places (Decimal.ofScaled units places).text := by
  have value := Decimal.plainValue_ofScaled units places
  have length := Decimal.length_fraction_ofScaled units places
  have isWhole : IsWhole (Decimal.ofScaled units places).whole := Json.isWhole_digits _
  have digits : ∀ c ∈ (Decimal.ofScaled units places).fraction, c.isDigit = true := by
    rw [Decimal.ofScaled]
    dsimp only
    split
    · exact List.forall_mem_nil _
    · exact (Json.isDigits_padZeros _ (Json.isDigits_digits _)).2
  rw [Decimal.text]
  generalize Decimal.ofScaled units places = d at value length isWhole digits
  split
  · next none =>
    rw [List.isEmpty_iff.mp none] at value length
    rw [List.append_nil] at value
    rw [← value, ← length]
    exact .whole isWhole
  · next some =>
    rw [← value, ← length]
    exact .point isWhole ⟨mt List.isEmpty_iff.mpr some, digits⟩

/-! ## Distances -/

section Distances

variable {x : Float} {negative : Bool} {d q t : ℚ} {D places units n : ℕ} {k : ℤ}

/-- Half a unit of the last bit that a double for `d` has is the distance at most. -/
def IsHalfBit (d q : ℚ) : Prop := |d - q| ≤ d / 2 ^ 53 + 2 ^ (-1075 : ℤ)

theorem IsNearest.isHalfBit (near : IsNearest negative d x) (nonneg : 0 ≤ d) (below : d < reach) :
    IsHalfBit d |value x| := by
  have size : |d| < reach := by rwa [abs_of_nonneg nonneg]
  have moved := abs_rounded_sub_le size
  have other := abs_abs_sub_abs_le_abs_sub d (value (rounded d))
  rw [abs_of_nonneg nonneg] at moved other
  rw [abs_sub_comm] at moved
  obtain ⟨reads, -, nearest, -⟩ | ⟨-, above⟩ := near
  · obtain ⟨-, finite, -⟩ | ⟨beyond, -⟩ := rounded_spec d
    · obtain ⟨_, _, _, reads'⟩ := isFinite_iff.mp finite
      -- the rounded number is one of those that the double is compared with
      have least := nearest _ _ _ _ reads'
      rw [← abs_value_of_finite reads, ← abs_value_of_finite reads'] at least
      exact least.trans (other.trans moved)
    · exact absurd size (not_lt.mpr beyond)
  · exact absurd below (not_lt.mpr above)

/-- With 15 digits up to a place, it is less than an eighth of a unit there. -/
theorem IsHalfBit.mul_lt (close : IsHalfBit d q) (most : n ≤ 300)
    (small : d * 10 ^ n ≤ 10 ^ 15) : |d - q| * 10 ^ n < 1 / 8 := by
  have unit : (0 : ℚ) < 10 ^ n := by positivity
  have tiny : (2 : ℚ) ^ (-1075 : ℤ) * 10 ^ n ≤ 1 / 2 ^ 75 := by
    have power : (10 : ℚ) ^ n ≤ 2 ^ 1000 :=
      calc (10 : ℚ) ^ n ≤ 10 ^ (3 * 100) := pow_le_pow_right₀ (by norm_num) most
        _ ≤ 2 ^ (10 * 100) := by
          rw [pow_mul, pow_mul]
          exact pow_le_pow_left₀ (by norm_num) (by norm_num) 100
    calc (2 : ℚ) ^ (-1075 : ℤ) * 10 ^ n ≤ 2 ^ (-1075 : ℤ) * 2 ^ 1000 :=
          mul_le_mul_of_nonneg_left power (zpow_two_pos _).le
      _ = 1 / 2 ^ 75 := by
        rw [← zpow_natCast, ← zpow_add₀ two_ne_zero, one_div, ← zpow_natCast, ← zpow_neg]
        rfl
  have scaled := mul_le_mul_of_nonneg_right close unit.le
  rw [add_mul, div_mul_eq_mul_div] at scaled
  linarith

/-- A number that is nearer than a bound lies on the same side of it. -/
theorem lt_iff_lt_of_abs_sub_lt (nearer : |d - q| < |d - t|) : q < t ↔ d < t := by
  rcases abs_cases (d - q) with ⟨eq, _⟩ | ⟨eq, _⟩ <;>
    rcases abs_cases (d - t) with ⟨eq', _⟩ | ⟨eq', _⟩ <;>
    constructor <;> intro <;> linarith

/-- The bound from which rounding to two more places carries into the kept ones. -/
def carryBound (places units : ℕ) : ℚ := (100 * units - 1 / 2) / 10 ^ (places + 2)

theorem one_le_abs_sub {i j : ℤ} (ne : i ≠ j) : 1 ≤ |(i : ℚ) - j| := by
  exact_mod_cast Int.one_le_abs (sub_ne_zero.mpr ne)

/-- Distances are compared in units of any place. -/
theorem abs_sub_lt_of_scaled (near : |d - q| * 10 ^ n < 1 / 8)
    (far : 1 / 2 ≤ |d * 10 ^ n - t * 10 ^ n|) : |d - q| < |d - t| := by
  have unit : (0 : ℚ) < 10 ^ n := by positivity
  rw [← sub_mul, abs_mul, abs_of_pos unit] at far
  exact lt_of_mul_lt_mul_right (near.trans_le (le_trans (by norm_num) far)) unit.le

/-- A decimal with no more places than are rounded to. The bound is half-way between two of them. -/
theorem IsHalfBit.lt_of_coarse (close : IsHalfBit d q) (most : places ≤ 12)
    (small : d * 10 ^ (places + 2) ≤ 10 ^ 15) (coarse : -(places + 2 : ℤ) ≤ k)
    (eq : d = D * 10 ^ k) : |d - q| < |d - carryBound places units| := by
  obtain ⟨shift, rfl⟩ : ∃ shift : ℕ, k = shift - (places + 2 : ℕ) :=
    ⟨(k + (places + 2)).toNat, by push_cast; omega⟩
  have whole : d * 10 ^ (places + 2) = (D * 10 ^ shift : ℕ) := by
    rw [eq, ← zpow_natCast, mul_assoc, ← zpow_ten_add, sub_add_cancel]
    push_cast
    rw [zpow_natCast]
  have half : carryBound places units * 10 ^ (places + 2) = 100 * units - 1 / 2 :=
    div_mul_cancel₀ _ (by positivity)
  -- in half units the decimal is even and the bound is odd
  have odd : (2 * (D * 10 ^ shift) : ℤ) ≠ 200 * units - 1 := by omega
  have far := one_le_abs_sub odd
  have double : ((2 * (D * 10 ^ shift) : ℤ) : ℚ) - ((200 * units - 1 : ℤ) : ℚ) =
      2 * (d * 10 ^ (places + 2) - carryBound places units * 10 ^ (places + 2)) := by
    rw [whole, half]
    push_cast
    ring
  rw [double, abs_mul, abs_two] at far
  exact abs_sub_lt_of_scaled (close.mul_lt (by omega) small) (by linarith)

/-- A decimal with more places, which the bound has too. -/
theorem IsHalfBit.lt_of_fine (close : IsHalfBit d q) (fine : places + 2 < n)
    (moderate : n ≤ 300) (few : D < 10 ^ 15) (whole : d * 10 ^ n = D)
    (apart : d ≠ carryBound places units) : |d - q| < |d - carryBound places units| := by
  have digits : d * 10 ^ n ≤ 10 ^ 15 := by
    rw [whole]
    exact_mod_cast few.le
  have near := close.mul_lt moderate digits
  obtain ⟨shift, rfl⟩ : ∃ shift : ℕ, n = places + 2 + (shift + 1) := ⟨n - (places + 3), by omega⟩
  have bound : carryBound places units * 10 ^ (places + 2 + (shift + 1)) =
      ((1000 * units - 5) * 10 ^ shift : ℤ) := by
    rw [pow_add, ← mul_assoc, carryBound, div_mul_cancel₀ _ (by positivity)]
    push_cast
    ring
  -- both are whole numbers of units of the last place
  have other : (D : ℤ) ≠ (1000 * units - 5) * 10 ^ shift := by
    intro same
    have cast : (D : ℚ) = ((1000 * units - 5) * 10 ^ shift : ℤ) := by exact_mod_cast same
    rw [← whole, ← bound] at cast
    exact apart (mul_right_cancel₀ (by positivity) cast)
  have far := one_le_abs_sub other
  rw [Int.cast_natCast, ← whole, ← bound] at far
  exact abs_sub_lt_of_scaled near (by linarith)

/-- A number far below the bound. -/
theorem IsHalfBit.lt_of_tiny (close : IsHalfBit d q) (most : places ≤ 12) (some : 0 < units)
    (tiny : d * 10 ^ 46 ≤ 10 ^ 15) : |d - q| < |d - carryBound places units| := by
  have high : 1 ≤ carryBound places units * 10 ^ 30 := by
    have one : (1 : ℚ) ≤ units := by exact_mod_cast some
    have power : (10 : ℚ) ^ (places + 2) ≤ 10 ^ 30 := pow_le_pow_right₀ (by norm_num) (by omega)
    rw [carryBound, div_mul_eq_mul_div, le_div_iff₀ (by positivity), one_mul]
    refine power.trans (le_mul_of_one_le_left (by positivity) ?_)
    linarith
  refine abs_sub_lt_of_scaled (n := 30) (close.mul_lt (by norm_num) (by linarith)) ?_
  rw [abs_sub_comm]
  exact le_trans (by linarith) (le_abs_self _)

/-- A decimal of 15 digits is nearer to its double than to the bound, unless it is the bound. -/
theorem IsHalfBit.lt_of_apart (close : IsHalfBit d q) (most : places ≤ 12) (some : 0 < units)
    (small : d * 10 ^ (places + 2) ≤ 10 ^ 15) (few : D < 10 ^ 15) (eq : d = D * 10 ^ k)
    (apart : d ≠ carryBound places units) : |d - q| < |d - carryBound places units| := by
  rcases le_or_gt (-(places + 2 : ℤ)) k with coarse | fine
  · exact close.lt_of_coarse most small coarse eq
  obtain ⟨n, rfl⟩ : ∃ n : ℕ, k = -(n : ℤ) := ⟨(-k).toNat, by omega⟩
  have whole : d * 10 ^ n = D := by
    rw [eq, zpow_neg, zpow_natCast, inv_mul_cancel_right₀ (by positivity)]
  rcases le_or_gt n 300 with moderate | large
  · exact close.lt_of_fine (by omega) moderate few whole apart
  · -- here units of the last place are smaller than what doubles can tell apart
    have nonneg : 0 ≤ d := by
      rw [eq]
      exact mul_nonneg (Nat.cast_nonneg D) (zpow_ten_pos _).le
    have digits : (D : ℚ) ≤ 10 ^ 15 := by exact_mod_cast few.le
    have tiny : d * 10 ^ 46 ≤ d * 10 ^ n :=
      mul_le_mul_of_nonneg_left (pow_le_pow_right₀ (by norm_num) (by omega)) nonneg
    exact close.lt_of_tiny most some (tiny.trans (whole.trans_le digits))

end Distances

/-! ## What is left of a decimal -/

section Cuts

variable {x : Float} {negative : Bool} {d : ℚ} {D m places : ℕ} {e k : ℤ}

/-- The digits that are dropped carry into the last one that is kept: there are more than 995
thousandths of its unit, or just as many, and the double is not below the decimal. -/
def Carries (d : ℚ) (places : ℕ) (x : Float) : Prop :=
  995 / 1000 < d * 10 ^ places - ⌊d * 10 ^ places⌋₊ ∨
    d * 10 ^ places - ⌊d * 10 ^ places⌋₊ = 995 / 1000 ∧ d ≤ |value x|

instance (d : ℚ) (places : ℕ) (x : Float) : Decidable (Carries d places x) :=
  inferInstanceAs (Decidable (_ ∨ _))

theorem carryBound_mul (places units : ℕ) :
    carryBound places (units + 1) * 10 ^ places = units + 995 / 1000 := by
  rw [carryBound, pow_add, div_mul_eq_mul_div, div_eq_iff (by positivity)]
  push_cast
  ring

/-- Rounding to hundredths and dropping them carries from half a hundredth below the next unit
on. -/
theorem roundsTo_div_hundred {a b : ℚ} {kept r : ℕ} (least : kept ≤ a) (less : a < kept + 1)
    (near : |a * 100 - b * 100| < 1 / 8) (rounds : RoundsTo (b * 100) r) :
    r / 100 = kept + if b * 100 < 100 * (kept + 1) - 1 / 2 then 0 else 1 := by
  have distance := abs_lt.mp near
  have within := abs_le.mp rounds.within
  have low : 100 * kept < r + 1 := by
    have lt : (100 * kept : ℚ) < r + 1 := by linarith
    exact_mod_cast lt
  have high : r < 100 * (kept + 2) := by
    have lt : (r : ℚ) < 100 * (kept + 2) := by linarith
    exact_mod_cast lt
  have carry := rounds.lt_iff (show 100 * (kept + 1) % 2 = 0 by omega)
  push_cast at carry
  split
  · next below =>
    have := carry.mpr below
    omega
  · next above =>
    have := mt carry.mp above
    omega

/-- Rounding a number with two more places and cutting it carries from the bound on. -/
theorem cutScaled_of_isHalfBit (close : IsHalfBit d (m * 2 ^ e)) (nonneg : 0 ≤ d)
    (most : places ≤ 12) (small : d * 10 ^ (places + 2) ≤ 10 ^ 15) :
    cutScaled m e places = ⌊d * 10 ^ places⌋₊ +
      if (m : ℚ) * 2 ^ e < carryBound places (⌊d * 10 ^ places⌋₊ + 1) then 0 else 1 := by
  have guard (q : ℚ) : q * 10 ^ (places + 2) = q * 10 ^ places * 100 := by
    rw [pow_add, ← mul_assoc]
    norm_num
  have unit : (0 : ℚ) < 10 ^ (places + 2) := by positivity
  have rounds : RoundsTo (m * 2 ^ e * 10 ^ (places + 2))
    (scaled (numerator m e) (denominator e) (places + 2)) := roundsTo_scaled m e (places + 2)
  have near := close.mul_lt (by omega) small
  rw [← abs_of_pos unit, ← abs_mul, sub_mul, guard, guard] at near
  rw [guard] at rounds
  have least := Nat.floor_le (mul_nonneg nonneg (by positivity : (0 : ℚ) ≤ 10 ^ places))
  have kept := roundsTo_div_hundred least (Nat.lt_floor_add_one _) near rounds
  simp only [carryBound, lt_div_iff₀ unit, guard, Nat.cast_add, Nat.cast_one]
  exact kept

/-- The double is on the side of the bound that the dropped digits are on. -/
theorem lt_carryBound_iff (apart : d ≠ carryBound places (⌊d * 10 ^ places⌋₊ + 1) →
      |d - (|value x|)| < |d - carryBound places (⌊d * 10 ^ places⌋₊ + 1)|) :
    |value x| < carryBound places (⌊d * 10 ^ places⌋₊ + 1) ↔ ¬Carries d places x := by
  have unit : (0 : ℚ) < 10 ^ places := by positivity
  have bound := carryBound_mul places ⌊d * 10 ^ places⌋₊
  rw [Carries, not_or, not_and, not_lt, not_le]
  generalize carryBound places (⌊d * 10 ^ places⌋₊ + 1) = t at apart bound ⊢
  generalize (⌊d * 10 ^ places⌋₊ : ℚ) = kept at bound ⊢
  by_cases same : d = t
  · have dropped : d * 10 ^ places - kept = 995 / 1000 := by
      rw [same, bound]
      ring
    rw [dropped, same]
    exact ⟨fun lt => ⟨le_rfl, fun _ => lt⟩, fun h => h.2 rfl⟩
  · rw [lt_iff_lt_of_abs_sub_lt (apart same)]
    constructor
    · intro lt
      have scaled := mul_lt_mul_of_pos_right lt unit
      exact ⟨by linarith, fun dropped => by linarith⟩
    · rintro ⟨le, -⟩
      have scaled : d * 10 ^ places ≤ t * 10 ^ places := by linarith
      exact lt_of_le_of_ne (le_of_mul_le_mul_right scaled unit) same

theorem lt_reach (small : (D : ℚ) * 10 ^ k < 10 ^ (13 - places)) : (D : ℚ) * 10 ^ k < reach := by
  have power : (10 : ℚ) ^ (13 - places) ≤ 10 ^ 13 :=
    pow_le_pow_right₀ (by norm_num) (Nat.sub_le ..)
  exact (small.trans_le power).trans (by decide +kernel)

/-- A decimal of 15 digits keeps its digits, unless those that are dropped carry. -/
theorem cutScaled_of_nearest (near : IsNearest negative (D * 10 ^ k) x) (few : D < 10 ^ 15)
    (most : places ≤ 12) (small : (D : ℚ) * 10 ^ k < 10 ^ (13 - places))
    (reads : read x = .finite negative m e) :
    cutScaled m e places = ⌊D * (10 : ℚ) ^ k * 10 ^ places⌋₊ +
      if Carries (D * 10 ^ k) places x then 1 else 0 := by
  have below := lt_reach small
  have nonneg : 0 ≤ (D : ℚ) * 10 ^ k := mul_nonneg (Nat.cast_nonneg D) (zpow_ten_pos _).le
  generalize eq : (D : ℚ) * 10 ^ k = d at near small below nonneg ⊢
  have units : d * 10 ^ (places + 2) ≤ 10 ^ 15 := by
    have whole : (10 : ℚ) ^ (13 - places) * 10 ^ (places + 2) = 10 ^ 15 := by
      rw [← pow_add]
      congr 1
      omega
    exact (mul_le_mul_of_nonneg_right small.le (by positivity)).trans_eq whole
  have close := near.isHalfBit nonneg below
  have side := lt_carryBound_iff (close.lt_of_apart most (Nat.succ_pos _) units few eq.symm)
  rw [abs_value_of_finite reads] at close side
  rw [cutScaled_of_isHalfBit close nonneg most units]
  congr 1
  split
  · next lt => rw [if_neg (side.mp lt)]
  · next ge => rw [if_pos (not_not.mp (mt side.mpr ge))]

end Cuts

/-! ## Texts of cut decimals -/

section Texts

variable {x : Float} {negative : Bool} {D m places : ℕ} {e k : ℤ}

theorem cut_eq (reads : read x = .finite negative m e) (few : places ≤ allDigits) :
    cut x places =
      signText negative ++ (Decimal.ofScaled (cutScaled m e places) places).text := by
  have none (d : Decimal) : d.extend 0 = d := by
    rw [Decimal.extend, List.replicate_zero, List.append_nil]
  rw [cut, reads]
  dsimp only
  rw [Nat.min_eq_left few, Nat.sub_self, none]

/-- The template that asks for a number with a fixed number of places. -/
def fixedTemplate (places : ℕ) : List Char := '%' :: '.' :: (digits places ++ ['f'])

open Printing in
theorem format?_fixedTemplate (h : Heap) (maxDepth : ℕ) {v : Value} (number : h.toNumber v = x)
    (few : places ≤ countLimit) :
    h.format? maxDepth (fixedTemplate places) [v] = some (cut x places) := by
  have value := plainValue_digits places
  have hasDigits : Head.HasDigits ⟨false, [], some (digits places)⟩ := by
    refine ⟨List.forall_mem_nil _, ?_⟩
    rintro _ ⟨⟩ c mem
    exact isDigit_of_mem_digits mem
  have splits : Splits [.directive ⟨false, [], some (digits places)⟩ 'f'] (fixedTemplate places) :=
    .directive hasDigits ⟨rfl, nofun, nofun⟩ .nil
  have modest : Part.IsModest (.directive ⟨false, [], some (digits places)⟩ 'f') := by
    refine ⟨Nat.zero_le _, ?_⟩
    rintro _ ⟨⟩
    rwa [value]
  have blanks (body : List Char) : padded false 0 body = body := by
    rw [padded, Nat.zero_max, Nat.sub_self]
    rfl
  rw [h.format?_eq_filled maxDepth splits fun _ => List.forall_mem_singleton.mpr modest]
  show some (padded false 0 (cut (h.toNumber v) (plainValue (digits places))) ++ []) = _
  rw [blanks, value, number, List.append_nil]

/-- A decimal of 15 digits, given as the double nearest to it, is cut to a fixed number of places,
if two more than that are within the accuracy of doubles. All digits that are kept are those of the
decimal, unless the digits that are dropped carry into them. A template cuts alike. -/
theorem cut_keeps_or_carries (near : IsNearest negative (D * 10 ^ k) x) (few : D < 10 ^ 15)
    (most : places ≤ 12) (small : (D : ℚ) * 10 ^ k < 10 ^ (13 - places)) : ∃ amount,
      SpellsFixed (⌊D * (10 : ℚ) ^ k * 10 ^ places⌋₊ +
        if Carries (D * 10 ^ k) places x then 1 else 0) places amount ∧
      cut? x places = some (signText negative ++ amount) ∧
      ∀ (h : Heap) maxDepth v, h.toNumber v = x →
        h.format? maxDepth (fixedTemplate places) [v] = some (signText negative ++ amount) := by
  have limit : places ≤ Printing.countLimit := most.trans (by decide)
  obtain ⟨reads, -, -, -⟩ | ⟨-, above⟩ := id near
  · have text := cut_eq reads (most.trans (by decide))
    rw [cutScaled_of_nearest near few most small reads] at text
    refine ⟨_, spellsFixed_ofScaled _ places, ?_, fun h maxDepth v number => ?_⟩
    · rw [cut?_eq x limit, text]
    · rw [format?_fixedTemplate h maxDepth number limit, text]
  · exact absurd (lt_reach small) (not_lt.mpr above)

theorem isNearest_of_toBits {num den : ℕ} (pos : 0 < den)
    (same : x.toBits = (nearest negative num den).toBits) : IsNearest negative (num / den) x := by
  rw [← ofBits_toBits x, same, ofBits_toBits]
  exact isNearest_nearest negative num pos

/-- No digit of 2.6789 is changed by those that are dropped. -/
theorem cut_keeps_or_carries_price : IsNearest false ((26789 : ℕ) * 10 ^ (-4 : ℤ)) 2.6789 ∧
    26789 < 10 ^ 15 ∧ 2 ≤ 12 ∧ ((26789 : ℕ) : ℚ) * 10 ^ (-4 : ℤ) < 10 ^ (13 - 2) ∧ ∃ amount,
      SpellsFixed 267 2 amount ∧ cut? 2.6789 2 = some (signText false ++ amount) ∧
      ∀ (h : Heap) maxDepth v, h.toNumber v = 2.6789 →
        h.format? maxDepth (fixedTemplate 2) [v] = some (signText false ++ amount) := by
  have quotient : ((26789 : ℕ) : ℚ) * 10 ^ (-4 : ℤ) = (26789 : ℕ) / (10000 : ℕ) := by norm_num
  have near : IsNearest false ((26789 : ℕ) * 10 ^ (-4 : ℤ)) 2.6789 := by
    rw [quotient]
    exact isNearest_of_toBits (by decide) (by decide +kernel)
  have small : ((26789 : ℕ) : ℚ) * 10 ^ (-4 : ℤ) < 10 ^ (13 - 2) := by
    rw [quotient]
    norm_num
  have text := cut_keeps_or_carries near (by decide) (show 2 ≤ 12 by decide) small
  have kept : (⌊((26789 : ℕ) : ℚ) * 10 ^ (-4 : ℤ) * 10 ^ 2⌋₊ +
      if Carries ((26789 : ℕ) * 10 ^ (-4 : ℤ)) 2 2.6789 then 1 else 0) = 267 := by decide +kernel
  rw [kept] at text
  exact ⟨near, by decide, by decide, small, text⟩

/-- The digits of 2.9999 that are dropped carry, so that those that are kept are changed. -/
theorem cut_keeps_or_carries_last : IsNearest false ((29999 : ℕ) * 10 ^ (-4 : ℤ)) 2.9999 ∧
    29999 < 10 ^ 15 ∧ 1 ≤ 12 ∧ ((29999 : ℕ) : ℚ) * 10 ^ (-4 : ℤ) < 10 ^ (13 - 1) ∧
    ⌊((29999 : ℕ) : ℚ) * 10 ^ (-4 : ℤ) * 10 ^ 1⌋₊ = 29 ∧ cut? 2.9999 1 = some "3.0".toList ∧
    ¬SpellsFixed 29 1 "3.0".toList ∧ ∀ (h : Heap) maxDepth v, h.toNumber v = 2.9999 →
      h.format? maxDepth "%.1f".toList [v] = some "3.0".toList := by
  have quotient : ((29999 : ℕ) : ℚ) * 10 ^ (-4 : ℤ) = (29999 : ℕ) / (10000 : ℕ) := by norm_num
  have cuts : cut 2.9999 1 = "3.0".toList := by decide +kernel
  have template : "%.1f".toList = fixedTemplate 1 := by decide
  refine ⟨?_, by decide, by decide, ?_, by decide +kernel, ?_, fun spells => ?_,
    fun h maxDepth v number => ?_⟩
  · rw [quotient]
    exact isNearest_of_toBits (by decide) (by decide +kernel)
  · rw [quotient]
    norm_num
  · rw [cut?_eq _ (by decide), cuts]
  · exact absurd spells.units_eq (by decide)
  · rw [template, format?_fixedTemplate h maxDepth number (by decide), cuts]

end Texts

end ValueMachine.Number
