import ValueMachine.Proofs.Number.DecimalTexts
import ValueMachine.Proofs.Number.Shortened

/-!
# Correct rounding

What it means that a double is a number correctly rounded, apart from how it is computed: no double is
nearer to the number, of two that are as near it is the one with the even mantissa, and from
`2 ^ 1024 - 2 ^ 970` on it is an infinity.

Results:
* `isNearest_nearest`: the nearest double of a quotient;
* `IsNearest.unique`: there is no other;
* `isNearest_ofDecimal`: the double that digits and an exponent of any size are read as.
-/

namespace ValueMachine.Number

/-- The double is `± q`, correctly rounded. -/
inductive IsNearest (negative : Bool) (q : ℚ) (x : Float) : Prop
  | finite {mantissa : ℕ} {exponent : ℤ} (reads : read x = .finite negative mantissa exponent)
    (below : q < 2 ^ 1024 - 2 ^ 970)
    (nearest : ∀ y sign m e, read y = .finite sign m e →
      |q - mantissa * 2 ^ exponent| ≤ |q - m * 2 ^ e|)
    (even : ∀ y sign m e, read y = .finite sign m e → (m : ℚ) * 2 ^ e ≠ mantissa * 2 ^ exponent →
      |q - mantissa * 2 ^ exponent| = |q - m * 2 ^ e| → mantissa % 2 = 0)
  | infinite (reads : read x = .infinite negative) (above : 2 ^ 1024 - 2 ^ 970 ≤ q)

theorem read_zero (negative : Bool) : read (zero negative) = .finite negative 0 (-1074) := by
  cases negative <;> decide +kernel

theorem read_infinity (negative : Bool) : read (infinity negative) = .infinite negative := by
  cases negative <;> decide +kernel

/-! ## The multiples of a unit -/

section Units

variable {q : ℚ} {k : ℕ}

/-- A distance from a multiple of a unit. -/
theorem abs_sub_mul_unit (q : ℚ) (n : ℕ) (unit : ℤ) :
    |q - n * 2 ^ unit| = |q / 2 ^ unit - n| * 2 ^ unit := by
  rw [abs_div_sub, div_mul_cancel₀ _ (zpow_two_pos unit).ne', abs_sub_comm]

/-- A double whose unit is no finer is a multiple of the unit. -/
theorem exists_multiple (m : ℕ) {e unit : ℤ} (le : unit ≤ e) :
    ∃ n : ℕ, (m : ℚ) * 2 ^ e = n * 2 ^ unit := by
  obtain ⟨shift, rfl⟩ : ∃ shift : ℕ, e = shift + unit := ⟨(e - unit).toNat, by omega⟩
  refine ⟨m * 2 ^ shift, ?_⟩
  rw [zpow_add₀ two_ne_zero, zpow_natCast]
  push_cast
  ring

/-- A double whose unit is finer lies below those with all 53 bits. -/
theorem lt_of_unit_lt {m : ℕ} {e unit : ℤ} (canonical : IsCanonical m e) (lt : e < unit) :
    (m : ℚ) * 2 ^ e < twoPow 52 * 2 ^ unit := by
  have small : (m : ℚ) < 2 ^ 53 := by
    rw [← cast_twoPow]
    exact_mod_cast canonical.small
  rw [cast_twoPow]
  calc (m : ℚ) * 2 ^ e < 2 ^ 53 * 2 ^ e := mul_lt_mul_of_pos_right small (zpow_two_pos e)
    _ = 2 ^ 52 * 2 ^ (e + 1) := by
      rw [zpow_add_one₀ two_ne_zero]
      ring
    _ ≤ 2 ^ 52 * 2 ^ unit :=
      mul_le_mul_of_nonneg_left (zpow_le_zpow_right₀ one_le_two lt) (by norm_num)

/-- Doubles with greater exponents are greater. -/
theorem IsCanonical.value_lt {m m' : ℕ} {e e' : ℤ} (h : IsCanonical m e) (h' : IsCanonical m' e')
    (lt : e < e') : (m : ℚ) * 2 ^ e < m' * 2 ^ e' := by
  have full : twoPow 52 ≤ m' := h'.full.resolve_right (by have := h.least; omega)
  refine (lt_of_unit_lt h lt).trans_le ?_
  exact mul_le_mul_of_nonneg_right (by exact_mod_cast full) (zpow_two_pos e').le

/-- A number is rounded in units of its last bit, and no double is nearer. -/
theorem RoundsTo.nearest_double (pos : 0 < q) (rounds : RoundsTo (q / 2 ^ unitOf q) k) {m : ℕ} {e : ℤ}
    (canonical : IsCanonical m e) :
    |q - k * 2 ^ unitOf q| ≤ |q - m * 2 ^ e| ∧
      ((m : ℚ) * 2 ^ e ≠ k * 2 ^ unitOf q → |q - k * 2 ^ unitOf q| = |q - m * 2 ^ e| →
        k % 2 = 0) := by
  have unit := zpow_two_pos (unitOf q)
  rcases le_or_gt (unitOf q) e with coarse | fine
  · obtain ⟨n, eq⟩ := exists_multiple m coarse
    rw [eq, abs_sub_mul_unit, abs_sub_mul_unit]
    refine ⟨mul_le_mul_of_nonneg_right (rounds.nearest n) unit.le, fun ne tie => ?_⟩
    have other : n ≠ k := by
      rintro rfl
      exact ne rfl
    exact rounds.even_of_tie other (mul_right_cancel₀ unit.ne' tie)
  · -- the doubles below are further away than the least one with the unit
    have least := canonical.least
    have full := (div_unitOf_bounds pos).2.resolve_right (by omega)
    rw [le_div_iff₀ unit, ← cast_twoPow] at full
    have below := lt_of_unit_lt canonical fine
    have nearer : |q - k * 2 ^ unitOf q| ≤ |q - twoPow 52 * 2 ^ unitOf q| := by
      rw [abs_sub_mul_unit, abs_sub_mul_unit]
      exact mul_le_mul_of_nonneg_right (rounds.nearest (twoPow 52)) unit.le
    rw [abs_of_nonneg (sub_nonneg.mpr full)] at nearer
    rw [abs_of_nonneg (sub_nonneg.mpr (below.le.trans full))]
    refine ⟨by linarith, fun _ tie => ?_⟩
    linarith

end Units

/-! ## The nearest double -/

/-- A mantissa that has been rounded up to `2 ^ 53` is one of the next exponent. -/
theorem exists_canonical {k : ℕ} {unit : ℤ} (least : -1074 ≤ unit) (le : k ≤ twoPow 53)
    (full : twoPow 52 ≤ k ∨ unit = -1074) :
    ∃ mantissa exponent, IsCanonical mantissa exponent ∧
      magnitudeBits mantissa exponent = magnitudeBits k unit ∧
      (mantissa : ℚ) * 2 ^ exponent = k * 2 ^ unit ∧ (k % 2 = 0 → mantissa % 2 = 0) := by
  have two52 : twoPow 52 = 4503599627370496 := rfl
  have two53 : twoPow 53 = 9007199254740992 := rfl
  rcases le.lt_or_eq with lt | rfl
  · exact ⟨k, unit, ⟨lt, least, full⟩, rfl, rfl, id⟩
  · refine ⟨twoPow 52, unit + 1, ⟨by omega, by omega, .inl le_rfl⟩, ?_, ?_, fun _ => rfl⟩
    · rw [magnitudeBits, magnitudeBits, two52, two53]
      omega
    · rw [two52, two53, zpow_add_one₀ two_ne_zero]
      push_cast
      ring

/-- The bits of a double are finite up to the greatest exponent. -/
theorem IsCanonical.finite_iff {mantissa : ℕ} {exponent : ℤ}
    (canonical : IsCanonical mantissa exponent) :
    magnitudeBits mantissa exponent < infinityBits ↔ exponent ≤ 971 := by
  obtain ⟨small, least, full⟩ := canonical
  have two52 : twoPow 52 = 4503599627370496 := rfl
  have two53 : twoPow 53 = 9007199254740992 := rfl
  rw [magnitudeBits, infinityBits, two52]
  rw [two53] at small
  rw [two52] at full
  omega

/-- The value of a double is below `2 ^ 1024` up to the greatest exponent. -/
theorem IsCanonical.lt_top_iff {mantissa : ℕ} {exponent : ℤ}
    (canonical : IsCanonical mantissa exponent) :
    (mantissa : ℚ) * 2 ^ exponent < 2 ^ 1024 ↔ exponent ≤ 971 := by
  obtain ⟨small, -, full⟩ := canonical
  have unit := zpow_two_pos exponent
  rw [← zpow_natCast]
  constructor
  · intro lt
    by_contra large
    have least : (2 : ℚ) ^ 52 ≤ mantissa := by
      rw [← cast_twoPow]
      exact_mod_cast full.resolve_right (by omega)
    have power : (2 : ℚ) ^ (972 : ℤ) ≤ 2 ^ exponent := zpow_le_zpow_right₀ one_le_two (by omega)
    have scaled := mul_le_mul least power (zpow_two_pos 972).le (Nat.cast_nonneg mantissa)
    rw [← zpow_natCast, ← zpow_add₀ two_ne_zero, show ((52 : ℕ) : ℤ) + 972 = (1024 : ℕ) from rfl]
      at scaled
    exact absurd lt (not_lt.mpr scaled)
  · intro le
    have most : (mantissa : ℚ) < 2 ^ 53 := by
      rw [← cast_twoPow]
      exact_mod_cast small
    refine (mul_lt_mul_of_pos_right most unit).trans_le ?_
    rw [← zpow_natCast, ← zpow_add₀ two_ne_zero]
    exact zpow_le_zpow_right₀ one_le_two (by push_cast; omega)

/-- A number is rounded up to an even one from half a unit below it. -/
theorem RoundsTo.lt_iff {q : ℚ} {k n : ℕ} (rounds : RoundsTo q k) (even : n % 2 = 0) :
    k < n ↔ q < n - 1 / 2 := by
  have near := abs_le.mp rounds.within
  constructor
  · intro lt
    have next : (k : ℚ) + 1 ≤ n := by exact_mod_cast lt
    rcases rounds with inside | ⟨-, even'⟩
    · linarith [(abs_lt.mp inside).2]
    · -- the neighbour below is odd
      have apart : (k : ℚ) + 2 ≤ n := by exact_mod_cast (show k + 2 ≤ n by omega)
      linarith
  · intro lt
    have less : (k : ℚ) < n := by linarith
    exact_mod_cast less

/-- A number is rounded up to `2 ^ 1024` from half a unit below it. -/
theorem RoundsTo.lt_top_iff {q : ℚ} (pos : 0 < q) {k : ℕ} (rounds : RoundsTo (q / 2 ^ unitOf q) k) :
    (k : ℚ) * 2 ^ unitOf q < 2 ^ 1024 ↔ q < 2 ^ 1024 - 2 ^ 970 := by
  obtain ⟨upper, lower⟩ := div_unitOf_bounds pos
  have unit := zpow_two_pos (unitOf q)
  have whole : q = q / 2 ^ unitOf q * 2 ^ unitOf q := (div_mul_cancel₀ q unit.ne').symm
  have most : (k : ℚ) ≤ 2 ^ 53 := by
    rw [← cast_twoPow] at upper ⊢
    exact_mod_cast rounds.le_of_le upper.le
  have bounds (e : ℕ) : (unitOf q ≤ e → (2 : ℚ) ^ unitOf q ≤ 2 ^ e) ∧
      (e ≤ unitOf q → (2 : ℚ) ^ e ≤ 2 ^ unitOf q) := by
    rw [← zpow_natCast]
    exact ⟨zpow_le_zpow_right₀ one_le_two, zpow_le_zpow_right₀ one_le_two⟩
  have top : (2 : ℚ) ^ 1024 = 2 ^ 53 * (2 * 2 ^ 970) := by rw [← pow_succ', ← pow_add]
  have next : (2 : ℚ) ^ 971 = 2 * 2 ^ 970 := pow_succ' 2 970
  have next' : (2 : ℚ) ^ 972 = 2 * (2 * 2 ^ 970) := by rw [← pow_succ', ← pow_succ']
  have positive : (0 : ℚ) < 2 ^ 970 := by positivity
  have low := (bounds 970).1
  have middle := bounds 971
  have high := (bounds 972).2
  rw [next'] at high
  rw [next] at middle
  rw [top]
  clear top next next' bounds
  generalize (2 : ℚ) ^ 970 = small at *
  rcases lt_trichotomy (unitOf q) 971 with below | between | above
  · -- both are below `2 ^ 1023`
    have bound := low (by omega)
    have rounded := mul_le_mul most bound unit.le (by norm_num)
    have exact := mul_le_mul upper.le bound unit.le (by norm_num)
    rw [← whole] at exact
    refine iff_of_true ?_ ?_ <;> linarith
  · have bound : (2 : ℚ) ^ unitOf q = 2 * small :=
      le_antisymm (middle.1 between.le) (middle.2 between.ge)
    have rounded := rounds.lt_iff (show twoPow 53 % 2 = 0 from rfl)
    rw [← @Nat.cast_lt ℚ, cast_twoPow] at rounded
    have threshold : (2 : ℚ) ^ 53 * (2 * small) - small = (2 ^ 53 - 1 / 2) * 2 ^ unitOf q := by
      rw [bound]
      ring
    rw [threshold, ← div_lt_iff₀ unit, ← rounded, ← bound, mul_lt_mul_iff_left₀ unit]
  · -- neither is below `2 ^ 1024`
    have least := lower.resolve_right (by omega)
    have least' : (2 : ℚ) ^ 52 ≤ k := by
      rw [← cast_twoPow] at least ⊢
      exact_mod_cast rounds.le_of_ge least
    have bound := high (by omega)
    have rounded := mul_le_mul least' bound (by positivity) (by positivity)
    have exact := mul_le_mul least bound (by positivity) (by positivity)
    rw [← whole] at exact
    refine iff_of_false ?_ ?_ <;> linarith

theorem one_lt_threshold : (1 : ℚ) < 2 ^ 1024 - 2 ^ 970 := by
  have one : (1 : ℚ) ≤ 2 ^ 970 := one_le_pow₀ one_le_two
  have top : (2 : ℚ) ^ 1024 = 2 ^ 54 * 2 ^ 970 := by rw [← pow_add]
  rw [top]
  clear top
  generalize (2 : ℚ) ^ 970 = power at *
  linarith

/-- Numbers below half of the least double are rounded to zero. -/
theorem isNearest_zero (negative : Bool) {q : ℚ} (nonneg : 0 ≤ q) (small : q ≤ 2 ^ (-1075 : ℤ)) :
    IsNearest negative q (zero negative) := by
  have half : (2 : ℚ) * 2 ^ (-1075 : ℤ) = 2 ^ (-1074 : ℤ) := by
    rw [mul_comm, ← zpow_add_one₀ two_ne_zero]
    rfl
  refine .finite (read_zero negative) ?_ ?_ fun _ _ _ _ _ _ _ => rfl
  · exact (small.trans_lt (zpow_lt_one_of_neg₀ one_lt_two (by omega))).trans one_lt_threshold
  · intro y sign m e reads
    rw [Nat.cast_zero, zero_mul, sub_zero, abs_of_nonneg nonneg]
    rcases Nat.eq_zero_or_pos m with rfl | some
    · rw [Nat.cast_zero, zero_mul, sub_zero, abs_of_nonneg nonneg]
    · have least : (2 : ℚ) ^ (-1074 : ℤ) ≤ m * 2 ^ e := by
        refine (zpow_le_zpow_right₀ one_le_two (isCanonical_of_finite reads).least).trans ?_
        exact le_mul_of_one_le_left (zpow_two_pos e).le (by exact_mod_cast some)
      rw [abs_sub_comm]
      exact le_trans (by linarith) (le_abs_self _)

/-- Numbers from `2 ^ 1024` on are rounded to an infinity. -/
theorem isNearest_infinity (negative : Bool) {q : ℚ} (large : 2 ^ 1024 ≤ q) :
    IsNearest negative q (infinity negative) :=
  .infinite (read_infinity negative) (le_trans (sub_le_self _ (by positivity)) large)

theorem isNearest_nearest (negative : Bool) (num : ℕ) {den : ℕ} (pos' : 0 < den) :
    IsNearest negative (num / den) (nearest negative num den) := by
  rcases Nat.eq_zero_or_pos num with rfl | pos
  · rw [Nat.cast_zero, zero_div]
    exact isNearest_zero negative le_rfl (zpow_two_pos _).le
  have posQ : (0 : ℚ) < num / den := div_pos (by exact_mod_cast pos) (by exact_mod_cast pos')
  obtain ⟨upper, lower⟩ := div_unitOf_bounds posQ
  obtain ⟨k, rounds⟩ := exists_roundsTo (div_nonneg posQ.le (zpow_two_pos (unitOf _)).le)
  have le : k ≤ twoPow 53 := rounds.le_of_le (by rw [cast_twoPow]; exact upper.le)
  have full : twoPow 52 ≤ k ∨ unitOf (num / den) = -1074 :=
    lower.imp_left fun ge => rounds.le_of_ge (by rw [cast_twoPow]; exact ge)
  obtain ⟨mantissa, exponent, canonical, bits, value, even⟩ :=
    exists_canonical (show -1074 ≤ unitOf (num / den) from le_max_right _ _) le full
  have threshold := rounds.lt_top_iff posQ
  rw [← value, canonical.lt_top_iff, ← canonical.finite_iff] at threshold
  rw [nearest, nearestBits_eq pos pos' rounds, ← bits]
  by_cases finite : magnitudeBits mantissa exponent < infinityBits
  · rw [Nat.min_eq_left finite.le]
    refine .finite (read_ofMagnitude negative canonical finite) (threshold.mp finite) ?_ ?_
    · intro y sign m e reads
      rw [value]
      exact (rounds.nearest_double posQ (isCanonical_of_finite reads)).1
    · intro y sign m e reads
      rw [value]
      exact fun ne tie => even ((rounds.nearest_double posQ (isCanonical_of_finite reads)).2 ne tie)
  · rw [Nat.min_eq_right (by omega)]
    exact .infinite (read_infinity negative) (not_lt.mp (mt threshold.mpr finite))

/-! ## The only nearest double -/

section Unique

variable {x y : Float} {negative : Bool} {q : ℚ} {m m' : ℕ} {e e' : ℤ}

/-- Doubles of one sign and one value are the same. -/
theorem eq_of_value_eq (reads : read x = .finite negative m e)
    (reads' : read y = .finite negative m' e') (eq : (m : ℚ) * 2 ^ e = m' * 2 ^ e') : x = y := by
  have canonical := isCanonical_of_finite reads
  have canonical' := isCanonical_of_finite reads'
  rcases lt_trichotomy e e' with lt | rfl | gt
  · exact absurd eq (canonical.value_lt canonical' lt).ne
  · have same : m = m' := by exact_mod_cast mul_right_cancel₀ (zpow_two_pos e).ne' eq
    refine eq_of_toBits_eq ?_
    rw [toBits_of_finite reads, toBits_of_finite reads', same]
  · exact absurd eq (canonical'.value_lt canonical gt).ne'

/-- The greater one of two doubles with even mantissas is an even multiple of the unit of the other
one. -/
theorem exists_even_multiple (canonical : IsCanonical m e) (canonical' : IsCanonical m' e')
    (even : m' % 2 = 0) (lt : (m : ℚ) * 2 ^ e < m' * 2 ^ e') :
    ∃ n : ℕ, (m' : ℚ) * 2 ^ e' = n * 2 ^ e ∧ n % 2 = 0 := by
  rcases lt_or_ge e' e with finer | le
  · exact absurd lt (canonical'.value_lt canonical finer).not_gt
  · obtain ⟨half, rfl⟩ := Nat.dvd_of_mod_eq_zero even
    obtain ⟨n, eq⟩ := exists_multiple half le
    refine ⟨2 * n, ?_, Nat.mul_mod_right 2 n⟩
    push_cast
    rw [mul_assoc, eq, mul_assoc]

/-- There is a double between two with even mantissas. -/
theorem exists_between {sign : Bool} (reads : read x = .finite negative m e)
    (reads' : read y = .finite sign m' e') (even : m % 2 = 0) (even' : m' % 2 = 0)
    (lt : (m : ℚ) * 2 ^ e < m' * 2 ^ e') :
    ∃ z k u, read z = .finite negative k u ∧ (m : ℚ) * 2 ^ e < k * 2 ^ u ∧
      (k : ℚ) * 2 ^ u < m' * 2 ^ e' := by
  have canonical := isCanonical_of_finite reads
  have canonical' := isCanonical_of_finite reads'
  have unit := zpow_two_pos e
  obtain ⟨n, value, even''⟩ := exists_even_multiple canonical canonical' even' lt
  rw [value, mul_lt_mul_iff_left₀ unit, Nat.cast_lt] at lt
  have above : ((m + 1 : ℕ) : ℚ) * 2 ^ e < m' * 2 ^ e' := by
    rw [value, mul_lt_mul_iff_left₀ unit, Nat.cast_lt]
    omega
  obtain ⟨k, u, canonical'', -, value'', -⟩ := exists_canonical canonical.least canonical.small
    (canonical.full.imp_left fun le => Nat.le_succ_of_le le)
  rw [← value''] at above
  have top := canonical'.lt_top_iff.mpr (canonical'.finite_iff.mp (magnitudeBits_lt reads'))
  have finite := canonical''.finite_iff.mpr (canonical''.lt_top_iff.mp (above.trans top))
  refine ⟨_, k, u, read_ofMagnitude negative canonical'' finite, ?_, above⟩
  rw [value'', mul_lt_mul_iff_left₀ unit, Nat.cast_lt]
  exact Nat.lt_succ_self m

/-- No nearest double is below another one: if they were as near, they would both be even, and the
number would be next to a double between them. -/
theorem IsNearest.value_le (nearest : IsNearest negative q x) (nearest' : IsNearest negative q y)
    (reads : read x = .finite negative m e) (reads' : read y = .finite negative m' e') :
    (m' : ℚ) * 2 ^ e' ≤ m * 2 ^ e := by
  obtain ⟨own, -, least, even⟩ | ⟨infinite, -⟩ := nearest
  swap
  · rw [reads] at infinite; cases infinite
  obtain ⟨own', -, least', even'⟩ | ⟨infinite, -⟩ := nearest'
  swap
  · rw [reads'] at infinite; cases infinite
  obtain ⟨-, rfl, rfl⟩ := (Reading.finite.injEq ..).mp (reads.symm.trans own)
  obtain ⟨-, rfl, rfl⟩ := (Reading.finite.injEq ..).mp (reads'.symm.trans own')
  by_contra less
  have lt := not_le.mp less
  have tie := le_antisymm (least _ _ _ _ reads') (least' _ _ _ _ reads)
  obtain ⟨z, k, u, readsZ, above, below⟩ := exists_between reads reads'
    (even _ _ _ _ reads' lt.ne' tie) (even' _ _ _ _ reads lt.ne tie.symm) lt
  have near := least _ _ _ _ readsZ
  have near' := least' _ _ _ _ readsZ
  generalize (m : ℚ) * 2 ^ e = low at *
  generalize (m' : ℚ) * 2 ^ e' = high at *
  generalize (k : ℚ) * 2 ^ u = middle at *
  rcases le_total q middle with le | le
  · rw [abs_of_nonpos (by linarith : q - middle ≤ 0), abs_of_nonpos (by linarith : q - high ≤ 0)]
      at near'
    linarith
  · rw [abs_of_nonneg (by linarith : 0 ≤ q - middle), abs_of_nonneg (by linarith : 0 ≤ q - low)]
      at near
    linarith

/-- A number has one nearest double. -/
theorem IsNearest.unique (nearest : IsNearest negative q x) (nearest' : IsNearest negative q y) :
    x = y := by
  have own := nearest
  have own' := nearest'
  rcases own with ⟨reads, below, -, -⟩ | ⟨reads, above⟩ <;>
    rcases own' with ⟨reads', below', -, -⟩ | ⟨reads', above'⟩
  · refine eq_of_value_eq reads reads' (le_antisymm ?_ ?_)
    · exact nearest'.value_le nearest reads' reads
    · exact nearest.value_le nearest' reads reads'
  · exact absurd below (not_lt.mpr above')
  · exact absurd below' (not_lt.mpr above)
  · exact eq_of_toBits_eq (by rw [toBits_of_infinite reads, toBits_of_infinite reads'])

end Unique

/-! ## Digits and an exponent -/

theorem ten_pow_reach : (2 : ℚ) ^ 1200 ≤ 10 ^ 400 := by
  rw [show 1200 = 3 * 400 from rfl, pow_mul]
  exact pow_le_pow_left₀ (by norm_num) (by norm_num) 400

/-- Powers of ten out of reach are rounded to zero. -/
theorem ten_zpow_le {e : ℤ} (le : e ≤ -400) : (10 : ℚ) ^ e ≤ 2 ^ (-1075 : ℤ) :=
  calc (10 : ℚ) ^ e ≤ 10 ^ (-(400 : ℕ) : ℤ) := zpow_le_zpow_right₀ (by norm_num) le
    _ ≤ 2 ^ (-(1200 : ℕ) : ℤ) := by
      rw [zpow_neg, zpow_neg, zpow_natCast, zpow_natCast]
      exact inv_anti₀ (by positivity) ten_pow_reach
    _ ≤ 2 ^ (-1075 : ℤ) := zpow_le_zpow_right₀ one_le_two (by omega)

/-- Digits with an exponent, whatever its size, are read as the nearest double. -/
theorem isNearest_ofDecimal (negative : Bool) {text : List Char} (exponent : ℤ)
    (digits : ∀ c ∈ text, c.isDigit = true) :
    IsNearest negative (plainValue text * 10 ^ exponent) (ofDecimal negative text exponent) := by
  have all : ∀ c ∈ text.dropWhile (· == '0'), c.isDigit = true :=
    fun c mem => digits c (List.dropWhile_subset _ mem)
  have first : ∀ c ∈ (text.dropWhile (· == '0')).head?, c ≠ '0' := by
    intro c mem
    have stops := List.head?_dropWhile_not (· == '0') text
    rw [Option.mem_def.mp mem] at stops
    simpa using stops
  have reach : (exponentReach : ℤ) = 400 := rfl
  rw [← plainValue_dropZeros, ofDecimal, reach]
  generalize text.dropWhile (· == '0') = significant at all first
  cases significant with
  | nil =>
    rw [if_pos (.inl rfl), show plainValue [] = 0 from rfl, Nat.cast_zero, zero_mul]
    exact isNearest_zero negative le_rfl (zpow_two_pos _).le
  | cons c rest =>
    obtain ⟨above, below⟩ := plainValue_mul_bounds exponent all (first c rfl)
    have nonneg : (0 : ℚ) ≤ plainValue (c :: rest) * 10 ^ exponent := (zpow_ten_pos _).le.trans above
    rw [List.length_cons]
    split_ifs with low high
    · -- less than `10 ^ -400`
      have tiny : (rest.length + 1 : ℕ) + exponent < -400 :=
        low.resolve_left (by rw [List.isEmpty_cons]; exact Bool.false_ne_true)
      exact isNearest_zero negative nonneg (below.le.trans (ten_zpow_le tiny.le))
    · -- `10 ^ 400` or more
      refine isNearest_infinity negative (le_trans ?_ above)
      calc (2 : ℚ) ^ 1024 ≤ 2 ^ 1200 := pow_le_pow_right₀ one_le_two (by omega)
        _ ≤ 10 ^ 400 := ten_pow_reach
        _ = 10 ^ ((400 : ℕ) : ℤ) := (zpow_natCast _ _).symm
        _ ≤ 10 ^ (rest.length + exponent) := zpow_le_zpow_right₀ (by norm_num) (by omega)
    · have nearest := isNearest_nearest negative
        (digitsValue (c :: rest) * tenPow exponent.toNat) (tenPow_pos (-exponent).toNat)
      rw [digitsValue_eq] at nearest ⊢
      rwa [decimal_div] at nearest

theorem ofDecimal_eq_nearest (negative : Bool) {text : List Char} {exponent : ℤ} {num den : ℕ}
    (digits : ∀ c ∈ text, c.isDigit = true) (pos : 0 < den)
    (value : (num : ℚ) / den = plainValue text * 10 ^ exponent) :
    ofDecimal negative text exponent = nearest negative num den :=
  (isNearest_ofDecimal negative exponent digits).unique (value ▸ isNearest_nearest negative num pos)

end ValueMachine.Number
