import ValueMachine.Proofs.Number.CorrectRounding
import ValueMachine.Proofs.Number.Signs

/-!
# Doubles as rational numbers

A finite double is a rational number, and a rational number is rounded to a double. An infinity
counts as the first power of two out of reach, so that doubles are compared as their values are and
rounding keeps the order.

Results:
* `lt_iff_value_lt`, `beq_iff_value_eq`: doubles are compared by their values;
* `value_rounded`: a double is rounded to itself;
* `rounded_mono`: rounding keeps the order;
* `abs_rounded_sub_le`: how far a number is moved.
-/

namespace ValueMachine.Number

open Float.Model Float.Model.UnpackedFloat

/-! ## Values -/

def signOf (negative : Bool) : ℚ := if negative then -1 else 1

/-- What an infinity counts as. -/
def beyond : ℚ := 2 ^ 1024

/-- The number that a reading stands for. A NaN counts as zero. -/
def Reading.value : Reading → ℚ
  | .nan => 0
  | .infinite negative => signOf negative * beyond
  | .finite negative mantissa exponent => signOf negative * (mantissa * 2 ^ exponent)

def value (x : Float) : ℚ := (read x).value

/-- From here on numbers are rounded to an infinity. -/
def reach : ℚ := 2 ^ 1024 - 2 ^ 970

section Values

variable {x y : Float} {negative : Bool} {m : ℕ} {e : ℤ}

theorem abs_signOf_mul (negative : Bool) {q : ℚ} (nonneg : 0 ≤ q) : |signOf negative * q| = q := by
  cases negative <;> simp [signOf, abs_of_nonneg nonneg]

theorem value_of_finite (h : read x = .finite negative m e) :
    value x = signOf negative * (m * 2 ^ e) := by rw [value, h]; rfl

theorem abs_value_of_finite (h : read x = .finite negative m e) : |value x| = m * 2 ^ e := by
  rw [value_of_finite h, abs_signOf_mul _ (by positivity)]

theorem beyond_pos : 0 < beyond := pow_pos two_pos _

theorem reach_lt : reach < beyond := sub_lt_self _ (pow_pos two_pos _)

theorem value_zero : value 0.0 = 0 := by decide +kernel

theorem isFinite_zero : (0.0 : Float).isFinite = true := by decide +kernel

/-- The greatest double is half a unit away from where infinity begins. -/
theorem abs_value_lt_reach (finite : x.isFinite = true) : |value x| < reach := by
  obtain ⟨negative, m, e, h⟩ := isFinite_iff.mp finite
  have canonical := isCanonical_of_finite h
  have most : e ≤ 971 := canonical.finite_iff.mp (magnitudeBits_lt h)
  have small : (m : ℚ) ≤ 2 ^ 53 - 1 := by
    have lt : m + 1 ≤ twoPow 53 := canonical.small
    have le : ((m + 1 : ℕ) : ℚ) ≤ (twoPow 53 : ℕ) := by exact_mod_cast lt
    rw [cast_twoPow] at le
    push_cast at le
    linarith
  have power : (2 : ℚ) ^ e ≤ 2 ^ (971 : ℤ) := zpow_le_zpow_right₀ one_le_two most
  have units : (2 : ℚ) ^ (971 : ℤ) = 2 * 2 ^ 970 := by
    rw [show (971 : ℤ) = (971 : ℕ) from rfl, zpow_natCast, ← pow_succ']
  have top : (2 : ℚ) ^ 1024 = 2 ^ 53 * (2 * 2 ^ 970) := by rw [← pow_succ', ← pow_add]
  rw [abs_value_of_finite h, reach, top]
  refine (mul_le_mul small power (zpow_two_pos e).le (by norm_num)).trans_lt ?_
  rw [units]
  clear top units power
  have positive : (0 : ℚ) < 2 ^ 970 := by positivity
  generalize (2 : ℚ) ^ 970 = power at *
  linarith

/-- A number that is not NaN is finite, or farther away than all finite ones. -/
theorem finite_or_infinite (number : read x ≠ .nan) : x.isFinite = true ∨
    ∃ negative, read x = .infinite negative ∧ value x = signOf negative * beyond := by
  cases h : read x with
  | nan => exact absurd h number
  | infinite negative => exact .inr ⟨negative, rfl, by rw [value, h, Reading.value]⟩
  | finite negative m e => exact .inl (isFinite_iff.mpr ⟨_, _, _, h⟩)

theorem isFinite_iff_abs_value_lt (number : read x ≠ .nan) :
    x.isFinite = true ↔ |value x| < reach := by
  refine ⟨abs_value_lt_reach, fun below => ?_⟩
  obtain finite | ⟨negative, -, size⟩ := finite_or_infinite number
  · exact finite
  · rw [size, abs_signOf_mul _ beyond_pos.le] at below
    exact absurd reach_lt (not_lt.mpr below.le)

theorem abs_value_le (x : Float) : |value x| ≤ beyond := by
  by_cases nan : read x = .nan
  · rw [value, nan, Reading.value, abs_zero]
    exact beyond_pos.le
  · obtain finite | ⟨negative, -, size⟩ := finite_or_infinite nan
    · exact ((abs_value_lt_reach finite).trans reach_lt).le
    · rw [size, abs_signOf_mul _ beyond_pos.le]

/-! ## Comparing -/

/-- Mantissas are compared after exponents. -/
theorem IsCanonical.compare_eq {m' : ℕ} {e' : ℤ} (h : IsCanonical m e) (h' : IsCanonical m' e') :
    (compare e e').then (compare m m') = compare ((m : ℚ) * 2 ^ e) (m' * 2 ^ e') := by
  rcases lt_trichotomy e e' with lt | rfl | gt
  · rw [compare_lt_iff_lt.mpr lt, compare_lt_iff_lt.mpr (h.value_lt h' lt)]
    rfl
  · have pos := zpow_two_pos e
    rw [compare_eq_iff_eq.mpr rfl]
    rcases lt_trichotomy m m' with lt | rfl | gt
    · rw [compare_lt_iff_lt.mpr lt, compare_lt_iff_lt.mpr]
      · rfl
      · exact mul_lt_mul_of_pos_right (by exact_mod_cast lt) pos
    · rw [compare_eq_iff_eq.mpr rfl, compare_eq_iff_eq.mpr rfl]
      rfl
    · rw [compare_gt_iff_gt.mpr gt, compare_gt_iff_gt.mpr]
      · rfl
      · exact mul_lt_mul_of_pos_right (by exact_mod_cast gt) pos
  · rw [compare_gt_iff_gt.mpr gt, compare_gt_iff_gt.mpr (h'.value_lt h gt)]
    rfl

/-- The number that the parts of a double stand for. -/
def partsValue : UnpackedFloat → ℚ
  | .notANumber => 0
  | .infinity .negative => -beyond
  | .infinity .positive => beyond
  | .zero _ => 0
  | .finite .negative m e _ => -(m * 2 ^ e)
  | .finite .positive m e _ => m * 2 ^ e

/-- Parts such as doubles have. -/
def PartsValid : UnpackedFloat → Prop
  | .notANumber => False
  | .finite _ m e _ => IsCanonical m e ∧ (m : ℚ) * 2 ^ e < beyond
  | _ => True

theorem partsValue_unpack (x : Float) : partsValue x.toModel.unpack = value x := by
  rw [unpack_eq, value]
  cases read x with
  | nan => rfl
  | infinite negative => cases negative <;> simp [partsValue, modelSign, Reading.value, signOf]
  | finite negative m e =>
    dsimp only
    split
    · next none => simp [partsValue, Reading.value, none]
    · cases negative <;> simp [partsValue, modelSign, Reading.value, signOf]

theorem partsValid_unpack (number : read x ≠ .nan) : PartsValid x.toModel.unpack := by
  rw [unpack_eq]
  cases h : read x with
  | nan => exact absurd h number
  | infinite negative => trivial
  | finite negative m e =>
    dsimp only
    split
    · trivial
    · have lt := abs_value_lt_reach (isFinite_iff.mpr ⟨_, _, _, h⟩)
      rw [abs_value_of_finite h] at lt
      exact ⟨isCanonical_of_finite h, lt.trans reach_lt⟩

/-- Parts are compared by what they stand for. -/
theorem compare_parts {a b : UnpackedFloat} (valid : PartsValid a) (valid' : PartsValid b) :
    UnpackedFloat.compare a b = some (compare (partsValue a) (partsValue b)) := by
  have top := beyond_pos
  have positive {m : ℕ} (pos : 0 < m) (e : ℤ) : (0 : ℚ) < m * 2 ^ e :=
    mul_pos (by exact_mod_cast pos) (zpow_two_pos e)
  suffices ∃ o : Ordering, UnpackedFloat.compare a b = some o ∧
      o.Compares (partsValue a) (partsValue b) by
    obtain ⟨o, eq, compares⟩ := this
    rw [eq, (compare_iff _ _).mpr compares]
  match a, b, valid, valid' with
  | .infinity .negative, .infinity .negative, _, _ => exact ⟨.eq, rfl, rfl⟩
  | .infinity .positive, .infinity .positive, _, _ => exact ⟨.eq, rfl, rfl⟩
  | .infinity .negative, .infinity .positive, _, _ => exact ⟨.lt, rfl, neg_lt_self top⟩
  | .infinity .positive, .infinity .negative, _, _ => exact ⟨.gt, rfl, neg_lt_self top⟩
  | .infinity .negative, .zero _, _, _ => exact ⟨.lt, rfl, neg_lt_zero.mpr top⟩
  | .infinity .positive, .zero _, _, _ => exact ⟨.gt, rfl, top⟩
  | .zero _, .infinity .negative, _, _ => exact ⟨.gt, rfl, neg_lt_zero.mpr top⟩
  | .zero _, .infinity .positive, _, _ => exact ⟨.lt, rfl, top⟩
  | .infinity .negative, .finite .negative m e pos, _, ⟨_, lt⟩ =>
    exact ⟨.lt, rfl, neg_lt_neg lt⟩
  | .infinity .negative, .finite .positive m e pos, _, _ =>
    exact ⟨.lt, rfl, (neg_lt_zero.mpr top).trans (positive pos e)⟩
  | .infinity .positive, .finite .negative m e pos, _, _ =>
    exact ⟨.gt, rfl, (neg_lt_zero.mpr (positive pos e)).trans top⟩
  | .infinity .positive, .finite .positive m e pos, _, ⟨_, lt⟩ => exact ⟨.gt, rfl, lt⟩
  | .finite .negative m e pos, .infinity .negative, ⟨_, lt⟩, _ =>
    exact ⟨.gt, rfl, neg_lt_neg lt⟩
  | .finite .positive m e pos, .infinity .negative, _, _ =>
    exact ⟨.gt, rfl, (neg_lt_zero.mpr top).trans (positive pos e)⟩
  | .finite .negative m e pos, .infinity .positive, _, _ =>
    exact ⟨.lt, rfl, (neg_lt_zero.mpr (positive pos e)).trans top⟩
  | .finite .positive m e pos, .infinity .positive, ⟨_, lt⟩, _ => exact ⟨.lt, rfl, lt⟩
  | .zero _, .zero _, _, _ => exact ⟨.eq, rfl, rfl⟩
  | .zero _, .finite .negative m e pos, _, _ =>
    exact ⟨.gt, rfl, neg_lt_zero.mpr (positive pos e)⟩
  | .zero _, .finite .positive m e pos, _, _ => exact ⟨.lt, rfl, positive pos e⟩
  | .finite .negative m e pos, .zero _, _, _ =>
    exact ⟨.lt, rfl, neg_lt_zero.mpr (positive pos e)⟩
  | .finite .positive m e pos, .zero _, _, _ => exact ⟨.gt, rfl, positive pos e⟩
  | .finite .negative m e pos, .finite .positive m' e' pos', _, _ =>
    exact ⟨.lt, rfl, (neg_lt_zero.mpr (positive pos e)).trans (positive pos' e')⟩
  | .finite .positive m e pos, .finite .negative m' e' pos', _, _ =>
    exact ⟨.gt, rfl, (neg_lt_zero.mpr (positive pos' e')).trans (positive pos e)⟩
  | .finite .positive m e pos, .finite .positive m' e' pos', ⟨canonical, _⟩, ⟨canonical', _⟩ =>
    exact ⟨_, rfl, (compare_iff _ _).mp (canonical.compare_eq canonical').symm⟩
  | .finite .negative m e pos, .finite .negative m' e' pos', ⟨canonical, _⟩, ⟨canonical', _⟩ =>
    have compares := (compare_iff _ _).mp (canonical.compare_eq canonical').symm
    refine ⟨_, rfl, Ordering.compares_swap.mpr ?_⟩
    revert compares
    generalize (compare e e').then (compare m m') = o
    cases o with
    | lt => exact neg_lt_neg
    | eq => exact fun same => congrArg Neg.neg (Eq.symm same)
    | gt => exact neg_lt_neg

/-- Numbers are compared by their values. -/
theorem compare_unpack_iff (x y : Float) (o : Ordering) :
    UnpackedFloat.compare x.toModel.unpack y.toModel.unpack = some o ↔
      read x ≠ .nan ∧ read y ≠ .nan ∧ compare (value x) (value y) = o := by
  by_cases hx : read x = .nan
  · have none : x.toModel.unpack = .notANumber := by rw [unpack_eq, hx]
    rw [none]
    exact iff_of_false nofun fun h => h.1 hx
  by_cases hy : read y = .nan
  · have none : y.toModel.unpack = .notANumber := by rw [unpack_eq, hy]
    have unordered (a : UnpackedFloat) : UnpackedFloat.compare a .notANumber = Option.none := by
      cases a <;> rfl
    rw [none, unordered]
    exact iff_of_false nofun fun h => h.2.1 hy
  rw [compare_parts (partsValid_unpack hx) (partsValid_unpack hy), partsValue_unpack,
    partsValue_unpack, Option.some_inj]
  exact ⟨fun eq => ⟨hx, hy, eq⟩, fun h => h.2.2⟩

theorem lt_iff_value_lt (x y : Float) :
    x < y ↔ read x ≠ .nan ∧ read y ≠ .nan ∧ value x < value y := by
  have compared : x < y ↔
      (UnpackedFloat.compare x.toModel.unpack y.toModel.unpack == some .lt) = true :=
    decide_eq_true_iff (p := x.toModel < y.toModel)
  rw [compared, beq_iff_eq, compare_unpack_iff, compare_lt_iff_lt]

theorem beq_iff_value_eq (x y : Float) :
    (x == y) = true ↔ read x ≠ .nan ∧ read y ≠ .nan ∧ value x = value y := by
  show (UnpackedFloat.compare x.toModel.unpack y.toModel.unpack == some .eq) = true ↔ _
  rw [beq_iff_eq, compare_unpack_iff, compare_eq_iff_eq]

end Values

/-! ## Rounding -/

/-- The double nearest to a number. -/
def rounded (q : ℚ) : Float := nearest (decide (q < 0)) q.num.natAbs q.den

section Rounding

variable {p q : ℚ} {y : Float}

theorem abs_eq_natAbs_div (q : ℚ) : |q| = q.num.natAbs / q.den := by
  rw [← Rat.num_div_den |q|, Rat.num_abs_eq_abs_num, Rat.den_abs_eq_den, Nat.cast_natAbs]

/-- A quotient with a sign is rounded like the number that it is. -/
theorem nearest_eq_rounded {num den : ℕ} (pos : 0 < den) (magnitude : |q| = num / den) :
    nearest (decide (q < 0)) num den = rounded q :=
  nearest_congr _ pos q.den_pos (magnitude.symm.trans (abs_eq_natAbs_div q))

/-- A number is rounded to the nearest double, or to an infinity of its sign. -/
theorem rounded_spec (q : ℚ) :
    (|q| < reach ∧ (rounded q).isFinite = true ∧
        ∀ y : Float, y.isFinite = true → |q - value (rounded q)| ≤ |q - value y|) ∨
      (reach ≤ |q| ∧ read (rounded q) = .infinite (decide (q < 0))) := by
  have nearest : IsNearest (decide (q < 0)) |q| (rounded q) := by
    rw [abs_eq_natAbs_div]
    exact isNearest_nearest _ _ q.den_pos
  obtain @⟨m, e, reads, below, least, -⟩ | ⟨reads, above⟩ := nearest
  · refine .inl ⟨below, isFinite_iff.mpr ⟨_, _, _, reads⟩, fun y finite => ?_⟩
    obtain ⟨s, m', e', reads'⟩ := isFinite_iff.mp finite
    have own : |q - value (rounded q)| = |(|q|) - m * 2 ^ e| := by
      rw [value_of_finite reads, signOf]
      by_cases negative : q < 0
      · rw [if_pos (decide_eq_true negative), abs_of_neg negative, ← abs_neg]
        congr 1
        ring
      · rw [if_neg (by simpa using negative), abs_of_nonneg (not_lt.mp negative), one_mul]
    rw [own]
    refine (least y s m' e' reads').trans ?_
    rw [← abs_value_of_finite reads']
    exact abs_abs_sub_abs_le_abs_sub q (value y)
  · exact .inr ⟨above, reads⟩

theorem read_rounded_ne_nan (q : ℚ) : read (rounded q) ≠ .nan := by
  rcases rounded_spec q with ⟨-, finite, -⟩ | ⟨-, reads⟩
  · obtain ⟨_, _, _, reads⟩ := isFinite_iff.mp finite
    rw [reads]
    exact Reading.noConfusion
  · rw [reads]
    exact Reading.noConfusion

/-- A double is rounded to itself. -/
theorem value_rounded (finite : y.isFinite = true) : value (rounded (value y)) = value y := by
  rcases rounded_spec (value y) with ⟨-, -, least⟩ | ⟨above, -⟩
  · have distance := least y finite
    rw [sub_self, abs_zero, abs_nonpos_iff, sub_eq_zero] at distance
    exact distance.symm
  · exact absurd (abs_value_lt_reach finite) (not_lt.mpr above)

/-- What is not nearer to the lesser of two numbers lies above their middle. -/
theorem add_le_of_abs_le {x y : ℚ} (lt : y < x) (near : |p - x| ≤ |p - y|) : x + y ≤ 2 * p := by
  rcases abs_cases (p - x) with ⟨eq, _⟩ | ⟨eq, _⟩ <;>
    rcases abs_cases (p - y) with ⟨eq', _⟩ | ⟨eq', _⟩ <;>
    linarith

/-- What is not nearer to the greater of two numbers lies below their middle. -/
theorem le_add_of_abs_le {x y : ℚ} (lt : y < x) (near : |p - y| ≤ |p - x|) : 2 * p ≤ x + y := by
  rcases abs_cases (p - x) with ⟨eq, _⟩ | ⟨eq, _⟩ <;>
    rcases abs_cases (p - y) with ⟨eq', _⟩ | ⟨eq', _⟩ <;>
    linarith

/-- Rounding keeps the order. -/
theorem rounded_mono (le : p ≤ q) : value (rounded p) ≤ value (rounded q) := by
  obtain rfl | lt := le.eq_or_lt
  · exact le_rfl
  have reach_pos : 0 < reach := zero_lt_one.trans one_lt_threshold
  have bottom := (abs_le.mp (abs_value_le (rounded q))).1
  have top := (abs_le.mp (abs_value_le (rounded p))).2
  have infinite {q : ℚ} (h : read (rounded q) = .infinite (decide (q < 0))) :
      value (rounded q) = if q < 0 then -beyond else beyond := by
    rw [value, h, Reading.value, signOf]
    by_cases negative : q < 0 <;> simp [negative]
  rcases rounded_spec p with ⟨below, finite, least⟩ | ⟨above, reads⟩
  · rcases rounded_spec q with ⟨below', finite', least'⟩ | ⟨above', reads'⟩
    · by_contra passed
      -- the middle of both doubles would lie below the lesser number and above the greater one
      have low := add_le_of_abs_le (not_le.mp passed) (least _ finite')
      have high := le_add_of_abs_le (not_le.mp passed) (least' _ finite)
      linarith
    · have positive : ¬q < 0 := by
        intro negative
        rw [abs_of_neg negative] at above'
        have := (abs_lt.mp below).1
        linarith
      rw [infinite reads', if_neg positive]
      exact top
  · by_cases negative : p < 0
    · rw [infinite reads, if_pos negative]
      exact bottom
    · rw [abs_of_nonneg (not_lt.mp negative)] at above
      rcases rounded_spec q with ⟨below', -, -⟩ | ⟨-, reads'⟩
      · have := (abs_lt.mp below').2
        linarith
      · rw [infinite reads', if_neg (by linarith)]
        exact top

theorem rounded_le (finite : y.isFinite = true) (le : q ≤ value y) : value (rounded q) ≤ value y :=
  (rounded_mono le).trans_eq (value_rounded finite)

theorem le_rounded (finite : y.isFinite = true) (le : value y ≤ q) : value y ≤ value (rounded q) :=
  (value_rounded finite).symm.trans_le (rounded_mono le)

/-- A number is rounded in units of its last bit. -/
theorem rounded_units (ne : q ≠ 0) (below : |q| < reach) : ∃ k : ℕ,
    RoundsTo (|q| / 2 ^ unitOf |q|) k ∧ (rounded q).isFinite = true ∧
      value (rounded q) = signOf (decide (q < 0)) * (k * 2 ^ unitOf |q|) := by
  have pos : 0 < |q| := abs_pos.mpr ne
  obtain ⟨upper, lower⟩ := div_unitOf_bounds pos
  obtain ⟨k, rounds⟩ := exists_roundsTo (div_nonneg pos.le (zpow_two_pos (unitOf |q|)).le)
  have le : k ≤ twoPow 53 := rounds.le_of_le (by rw [cast_twoPow]; exact upper.le)
  have full : twoPow 52 ≤ k ∨ unitOf |q| = -1074 :=
    lower.imp_left fun ge => rounds.le_of_ge (by rw [cast_twoPow]; exact ge)
  obtain ⟨m, e, canonical, bits, eq, -⟩ :=
    exists_canonical (show -1074 ≤ unitOf |q| from le_max_right _ _) le full
  have finite : magnitudeBits m e < infinityBits := by
    rw [canonical.finite_iff, ← canonical.lt_top_iff, eq]
    exact (rounds.lt_top_iff pos).mpr below
  have reads : read (rounded q) = .finite (decide (q < 0)) m e := by
    have whole := abs_eq_natAbs_div q
    have num : 0 < q.num.natAbs := Int.natAbs_pos.mpr (Rat.num_ne_zero.mpr ne)
    rw [whole] at rounds bits
    rw [rounded, nearest, nearestBits_eq num q.den_pos rounds, ← bits, Nat.min_eq_left finite.le]
    exact read_ofMagnitude _ canonical finite
  exact ⟨k, rounds, isFinite_iff.mpr ⟨_, _, _, reads⟩, by rw [value_of_finite reads, eq]⟩

theorem signOf_mul_abs (q : ℚ) : signOf (decide (q < 0)) * |q| = q := by
  rw [signOf]
  by_cases negative : q < 0
  · rw [if_pos (decide_eq_true negative), abs_of_neg negative]
    ring
  · rw [if_neg (by simpa using negative), abs_of_nonneg (not_lt.mp negative), one_mul]

/-- A number is moved by half a unit of its last bit at most. -/
theorem abs_rounded_sub_le (below : |q| < reach) :
    |value (rounded q) - q| ≤ |q| / 2 ^ 53 + 2 ^ (-1075 : ℤ) := by
  by_cases zero : q = 0
  · have kept := value_rounded isFinite_zero
    rw [value_zero] at kept
    rw [zero, kept, sub_self, abs_zero]
    positivity
  obtain ⟨k, rounds, -, eq⟩ := rounded_units zero below
  have pos : 0 < |q| := abs_pos.mpr zero
  have unit := zpow_two_pos (unitOf |q|)
  have distance : |value (rounded q) - q| = |(|q|) / 2 ^ unitOf |q| - k| * 2 ^ unitOf |q| := by
    have signed : value (rounded q) - q =
        signOf (decide (q < 0)) * (k * 2 ^ unitOf |q| - |q|) := by
      rw [eq, mul_sub, signOf_mul_abs]
    rw [signed, ← abs_sub_mul_unit, abs_sub_comm |q|]
    rw [signOf]
    split <;> simp [abs_sub_comm]
  have half : |value (rounded q) - q| ≤ 1 / 2 * 2 ^ unitOf |q| := by
    rw [distance]
    exact mul_le_mul_of_nonneg_right rounds.within unit.le
  refine half.trans ?_
  rcases (div_unitOf_bounds pos).2 with full | least
  · rw [le_div_iff₀ unit] at full
    have nonneg : (0 : ℚ) ≤ 2 ^ (-1075 : ℤ) := (zpow_two_pos _).le
    linarith
  · rw [least, show (-1074 : ℤ) = -1075 + 1 from rfl, zpow_add_one₀ two_ne_zero]
    have nonneg : 0 ≤ |q| / 2 ^ 53 := by positivity
    linarith

/-- A number of 53 bits is a multiple of the unit that it is rounded in. -/
theorem exists_multiple_of_unit {n : ℕ} {u : ℤ} (pos : 0 < n) (small : n ≤ 2 ^ 53)
    (least : -1074 ≤ u) : ∃ k : ℕ, (n : ℚ) * 2 ^ u = k * 2 ^ unitOf (n * 2 ^ u) := by
  have posQ : (0 : ℚ) < n * 2 ^ u := mul_pos (by exact_mod_cast pos) (zpow_two_pos u)
  have unit := zpow_two_pos (unitOf (n * 2 ^ u : ℚ))
  rcases le_or_gt (unitOf (n * 2 ^ u : ℚ)) u with fine | coarse
  · exact exists_multiple n fine
  · have full := (div_unitOf_bounds posQ).2.resolve_right (by omega)
    rw [le_div_iff₀ unit] at full
    refine ⟨2 ^ 52, le_antisymm ?_ (by push_cast; exact full)⟩
    have smallQ : (n : ℚ) ≤ 2 ^ 53 := by exact_mod_cast small
    calc (n : ℚ) * 2 ^ u ≤ 2 ^ 53 * 2 ^ u := mul_le_mul_of_nonneg_right smallQ (zpow_two_pos u).le
      _ = 2 ^ 52 * 2 ^ (u + 1) := by rw [zpow_add_one₀ two_ne_zero]; ring
      _ ≤ 2 ^ 52 * 2 ^ unitOf (n * 2 ^ u : ℚ) :=
        mul_le_mul_of_nonneg_left (zpow_le_zpow_right₀ one_le_two coarse) (by norm_num)
      _ = ((2 ^ 52 : ℕ) : ℚ) * 2 ^ unitOf (n * 2 ^ u : ℚ) := by push_cast; rfl

/-- Numbers of 53 bits are doubles. -/
theorem rounded_of_multiple {i u : ℤ} (small : i.natAbs ≤ 2 ^ 53) (least : -1074 ≤ u)
    (most : u ≤ 970) :
    (rounded (i * 2 ^ u)).isFinite = true ∧ value (rounded (i * 2 ^ u)) = i * 2 ^ u := by
  by_cases zero : i = 0
  · rw [zero, Int.cast_zero, zero_mul]
    decide +kernel
  have pos : 0 < i.natAbs := Int.natAbs_pos.mpr zero
  have size : |(i : ℚ) * 2 ^ u| = i.natAbs * 2 ^ u := by
    rw [abs_mul, abs_of_pos (zpow_two_pos u), Nat.cast_natAbs, Int.cast_abs]
  have below : |(i : ℚ) * 2 ^ u| < reach := by
    have smallQ : (i.natAbs : ℚ) ≤ 2 ^ 53 := by exact_mod_cast small
    have power : (2 : ℚ) ^ u ≤ 2 ^ (970 : ℤ) := zpow_le_zpow_right₀ one_le_two most
    have units : (2 : ℚ) ^ (970 : ℤ) = 2 ^ 970 := by
      rw [show (970 : ℤ) = (970 : ℕ) from rfl, zpow_natCast]
    have top : (2 : ℚ) ^ 1024 = 2 ^ 54 * 2 ^ 970 := by rw [← pow_add]
    rw [size, reach, top]
    refine (mul_le_mul smallQ power (zpow_two_pos u).le (by norm_num)).trans_lt ?_
    rw [units]
    clear top units power
    have positive : (0 : ℚ) < 2 ^ 970 := by positivity
    generalize (2 : ℚ) ^ 970 = power at *
    linarith
  have ne : (i : ℚ) * 2 ^ u ≠ 0 := mul_ne_zero (by exact_mod_cast zero) (zpow_two_pos u).ne'
  obtain ⟨k, rounds, finite, eq⟩ := rounded_units ne below
  obtain ⟨k', whole⟩ := exists_multiple_of_unit pos small least
  rw [← size] at whole
  have exact : |(i : ℚ) * 2 ^ u| / 2 ^ unitOf |(i : ℚ) * 2 ^ u| = k' :=
    (div_eq_iff (zpow_two_pos _).ne').mpr whole
  rw [exact] at rounds
  obtain rfl : k = k' := rounds.unique (.inl (by rw [sub_self, abs_zero]; norm_num))
  rw [← whole, signOf_mul_abs] at eq
  exact ⟨finite, eq⟩

/-- Doubles are multiples of the least one. -/
theorem exists_units (finite : y.isFinite = true) : ∃ i : ℤ, value y = i * 2 ^ (-1074 : ℤ) := by
  obtain ⟨negative, m, e, reads⟩ := isFinite_iff.mp finite
  obtain ⟨n, eq⟩ := exists_multiple m (isCanonical_of_finite reads).least
  refine ⟨if negative then -n else n, ?_⟩
  rw [value_of_finite reads, eq, signOf]
  cases negative <;> simp

/-- So are their differences. -/
theorem exists_units_sub {x : Float} (hx : x.isFinite = true) (hy : y.isFinite = true) :
    ∃ i : ℤ, value x - value y = i * 2 ^ (-1074 : ℤ) := by
  obtain ⟨i, eq⟩ := exists_units hx
  obtain ⟨j, eq'⟩ := exists_units hy
  exact ⟨i - j, by rw [eq, eq', Int.cast_sub, sub_mul]⟩

/-- The least double is no half unit of a multiple that is not exact. -/
theorem abs_rounded_units_sub_le {i : ℤ} (units : q = i * 2 ^ (-1074 : ℤ)) (below : |q| < reach) :
    |value (rounded q) - q| ≤ |q| / 2 ^ 52 := by
  rcases le_or_gt i.natAbs (2 ^ 53) with small | large
  · have exact := (rounded_of_multiple small le_rfl (by decide)).2
    rw [← units] at exact
    rw [exact, sub_self, abs_zero]
    positivity
  · have unit := zpow_two_pos (-1075)
    have size : |q| = i.natAbs * (2 ^ (-1075 : ℤ) * 2) := by
      rw [units, abs_mul, abs_of_pos (zpow_two_pos _), Nat.cast_natAbs, Int.cast_abs,
        show (-1074 : ℤ) = -1075 + 1 from rfl, zpow_add_one₀ two_ne_zero]
    have largeQ : (2 : ℚ) ^ 53 ≤ i.natAbs := by exact_mod_cast large.le
    have half : (2 : ℚ) ^ (-1075 : ℤ) ≤ |q| / 2 ^ 54 := by
      rw [size, le_div_iff₀ (by positivity)]
      calc (2 : ℚ) ^ (-1075 : ℤ) * 2 ^ 54 = 2 ^ 53 * (2 ^ (-1075 : ℤ) * 2) := by ring
        _ ≤ (i.natAbs : ℚ) * (2 ^ (-1075 : ℤ) * 2) :=
          mul_le_mul_of_nonneg_right largeQ (by positivity)
    calc |value (rounded q) - q| ≤ |q| / 2 ^ 53 + |q| / 2 ^ 54 :=
          (abs_rounded_sub_le below).trans (add_le_add_right half _)
      _ ≤ |q| / 2 ^ 52 := by
        have := abs_nonneg q
        linarith

theorem value_rounded_ne_zero {i : ℤ} (units : q = i * 2 ^ (-1074 : ℤ)) (ne : q ≠ 0) :
    value (rounded q) ≠ 0 := by
  intro none
  rcases rounded_spec q with ⟨below, -, -⟩ | ⟨-, reads⟩
  · have near := abs_rounded_units_sub_le units below
    have pos := abs_pos.mpr ne
    rw [none, zero_sub, abs_neg] at near
    linarith
  · have size : |value (rounded q)| = beyond := by
      rw [value, reads, Reading.value, abs_signOf_mul _ beyond_pos.le]
    rw [none, abs_zero] at size
    exact beyond_pos.ne size

/-- A multiple of the least double is rounded to a number of its sign. -/
theorem rounded_sign {i : ℤ} (units : q = i * 2 ^ (-1074 : ℤ)) :
    (0 < value (rounded q) ↔ 0 < q) ∧ (value (rounded q) < 0 ↔ q < 0) := by
  have up (nonneg : 0 ≤ q) : 0 ≤ value (rounded q) := by
    have le := le_rounded isFinite_zero (value_zero.trans_le nonneg)
    rwa [value_zero] at le
  have down (nonpos : q ≤ 0) : value (rounded q) ≤ 0 := by
    have le := rounded_le isFinite_zero (nonpos.trans_eq value_zero.symm)
    rwa [value_zero] at le
  constructor
  · refine ⟨fun pos => lt_of_not_ge fun nonpos => ?_, fun pos => ?_⟩
    · exact absurd pos (not_lt.mpr (down nonpos))
    · exact lt_of_le_of_ne (up pos.le) (value_rounded_ne_zero units pos.ne').symm
  · refine ⟨fun neg => lt_of_not_ge fun nonneg => ?_, fun neg => ?_⟩
    · exact absurd neg (not_lt.mpr (up nonneg))
    · exact lt_of_le_of_ne (down neg.le) (value_rounded_ne_zero units neg.ne)

end Rounding

end ValueMachine.Number
