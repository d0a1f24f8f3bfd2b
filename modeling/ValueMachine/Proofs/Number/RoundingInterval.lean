import ValueMachine.Proofs.Number.Reading
import ValueMachine.Proofs.Number.Rounding

/-!
# Numbers that round to a double

A rational number is rounded to the double that is nearest to it. The numbers that are rounded to
one double lie around its exact value, half a unit of its last bit to either side.

Results:
* `nearestBits_eq`, `nearestBits_congr`: the nearest double is one of the rational number;
* `nearestBits_eq_iff`: which numbers are rounded to a double that is no power of two;
* `nearestBits_of_power`: numbers that are rounded to a power of two;
* `nearest_eq_iff`, `read_ofMagnitude`: doubles by their bits.
-/

namespace ValueMachine.Number

open Float.Model Float.Model.UnpackedFloat

/-! ## The unit -/

/-- The exponent of the last bit of the double nearest to `q`. -/
def unitOf (q : ℚ) : ℤ := max (Int.log 2 q - 52) (-1074)

section Unit

variable {q : ℚ}

theorem zpow_two_pos (e : ℤ) : (0 : ℚ) < 2 ^ e := zpow_pos (by norm_num) e

/-- Measured in units of its last bit, a number has 53 bits, or fewer if it is small. -/
theorem div_unitOf_bounds (pos : 0 < q) :
    q / 2 ^ unitOf q < 2 ^ 53 ∧ (2 ^ 52 ≤ q / 2 ^ unitOf q ∨ unitOf q = -1074) := by
  have upper : q < 2 ^ (Int.log 2 q + 1) := by
    exact_mod_cast Int.lt_zpow_succ_log_self one_lt_two q
  have lower : (2 : ℚ) ^ Int.log 2 q ≤ q := by exact_mod_cast Int.zpow_log_le_self one_lt_two pos
  rw [div_lt_iff₀ (zpow_two_pos _), le_div_iff₀ (zpow_two_pos _), ← zpow_natCast 2 53,
    ← zpow_natCast 2 52, ← zpow_add₀ two_ne_zero, ← zpow_add₀ two_ne_zero]
  constructor
  · refine upper.trans_le (zpow_le_zpow_right₀ one_le_two ?_)
    rw [unitOf]
    push_cast
    omega
  · by_cases small : unitOf q = -1074
    · exact .inr small
    · left
      rw [unitOf] at small ⊢
      refine le_trans (zpow_le_zpow_right₀ one_le_two ?_) lower
      push_cast
      omega

theorem unitOf_eq {e : ℤ} (pos : 0 < q) (least : -1074 ≤ e) (upper : q / 2 ^ e < 2 ^ 53)
    (lower : 2 ^ 52 ≤ q / 2 ^ e ∨ e = -1074) : unitOf q = e := by
  rw [div_lt_iff₀ (zpow_two_pos e), ← zpow_natCast 2 53, ← zpow_add₀ two_ne_zero] at upper
  have above := (Int.lt_zpow_iff_log_lt one_lt_two pos).mp (by exact_mod_cast upper)
  rw [unitOf]
  rcases lower with lower | rfl
  · rw [le_div_iff₀ (zpow_two_pos e), ← zpow_natCast 2 52, ← zpow_add₀ two_ne_zero] at lower
    have below := (Int.zpow_le_iff_le_log one_lt_two pos).mp (by exact_mod_cast lower)
    omega
  · push_cast at above
    omega

end Unit

/-! ## The nearest double -/

section Nearest

variable {num den : ℕ}

theorem nearestBits_zero (den : ℕ) : nearestBits 0 den = 0 := rfl

/-- The mantissa of the nearest double is the number, rounded in units of its last bit. -/
theorem nearestBits_eq (pos : 0 < num) (pos' : 0 < den) {k : ℕ}
    (rounds : RoundsTo ((num : ℚ) / den / 2 ^ unitOf (num / den)) k) :
    nearestBits num den = min (magnitudeBits k (unitOf (num / den))) infinityBits := by
  rw [nearestBits, if_neg pos.ne', floorLog2_eq pos pos', magnitudeBits]
  have scaled := div_mul_twoPow num den (-unitOf (num / den))
  rw [neg_neg, zpow_neg, ← div_eq_mul_inv] at scaled
  rw [← scaled, ← roundDiv_eq_iff (Nat.mul_pos pos' (twoPow_pos _))] at rounds
  rw [unitOf] at rounds ⊢
  dsimp only
  rw [rounds]

/-- Equal quotients have one nearest double. -/
theorem nearestBits_congr {num' den' : ℕ} (pos : 0 < den) (pos' : 0 < den')
    (eq : (num : ℚ) / den = num' / den') : nearestBits num den = nearestBits num' den' := by
  have denQ : (den : ℚ) ≠ 0 := by exact_mod_cast pos.ne'
  have denQ' : (den' : ℚ) ≠ 0 := by exact_mod_cast pos'.ne'
  have zero : num = 0 ↔ num' = 0 := by
    rw [div_eq_div_iff denQ denQ'] at eq
    constructor
    · rintro rfl
      simpa [denQ] using eq.symm
    · rintro rfl
      simpa [denQ'] using eq
  rcases Nat.eq_zero_or_pos num with none | some
  · rw [none, zero.mp none, nearestBits_zero, nearestBits_zero]
  · have some' : 0 < num' := Nat.pos_of_ne_zero (mt zero.mpr some.ne')
    have nonneg : (0 : ℚ) ≤ num / den / 2 ^ unitOf (num / den) :=
      div_nonneg (by positivity) (zpow_two_pos _).le
    obtain ⟨k, rounds⟩ := exists_roundsTo nonneg
    rw [nearestBits_eq some pos rounds, nearestBits_eq some' pos' (eq ▸ rounds), eq]

theorem nearestBits_le (num den : ℕ) : nearestBits num den ≤ infinityBits := by
  rw [nearestBits]
  split
  · exact Nat.zero_le _
  · exact Nat.min_le_right _ _

variable {mantissa : ℕ} {exponent : ℤ}

/-- A number is rounded to its own double if it is one. -/
theorem nearestBits_of_exact (pos' : 0 < den) (canonical : IsCanonical mantissa exponent)
    (finite : magnitudeBits mantissa exponent < infinityBits)
    (exact : (num : ℚ) / den = mantissa * 2 ^ exponent) :
    nearestBits num den = magnitudeBits mantissa exponent := by
  obtain ⟨small, least, full⟩ := canonical
  have denQ : (0 : ℚ) < den := by exact_mod_cast pos'
  rcases Nat.eq_zero_or_pos num with rfl | pos
  · have none : mantissa = 0 := by
      have zero : (mantissa : ℚ) * 2 ^ exponent = 0 := by rw [← exact]; simp
      exact_mod_cast (mul_eq_zero.mp zero).resolve_right (zpow_two_pos exponent).ne'
    have lowest : exponent = -1074 := by
      refine full.resolve_left fun le => ?_
      have := twoPow_pos 52
      omega
    rw [none, lowest]
    rfl
  · have scaled : (num : ℚ) / den / 2 ^ exponent = mantissa := by
      rw [exact, mul_div_cancel_right₀ _ (zpow_two_pos exponent).ne']
    have posQ : (0 : ℚ) < num / den := div_pos (by exact_mod_cast pos) denQ
    have unit : unitOf (num / den) = exponent := by
      refine unitOf_eq posQ least ?_ (full.imp_left fun le => ?_)
      · rw [scaled, ← cast_twoPow]
        exact_mod_cast small
      · rw [scaled, ← cast_twoPow]
        exact_mod_cast le
    have rounds : RoundsTo ((num : ℚ) / den / 2 ^ unitOf (num / den)) mantissa := by
      rw [unit, scaled]
      left
      simp
    rw [nearestBits_eq pos pos' rounds, unit]
    exact Nat.min_eq_left finite.le

/-- Mantissas of 53 bits or fewer tell the exponent, but for one that has been rounded up. -/
theorem eq_of_magnitudeBits_eq {k : ℕ} {unit : ℤ} (canonical : IsCanonical mantissa exponent)
    (inside : mantissa ≠ twoPow 52 ∨ exponent = -1074) (least : -1074 ≤ unit) (le : k ≤ twoPow 53)
    (full : twoPow 52 ≤ k ∨ unit = -1074)
    (eq : magnitudeBits k unit = magnitudeBits mantissa exponent) :
    unit = exponent ∧ k = mantissa := by
  obtain ⟨small, least', full'⟩ := canonical
  have two52 : twoPow 52 = 4503599627370496 := rfl
  have two53 : twoPow 53 = 9007199254740992 := rfl
  rw [magnitudeBits, magnitudeBits, two52] at eq
  rw [two52] at inside full full'
  rw [two53] at small le
  omega

/-- A number is rounded to a double that is no power of two if it differs by half a unit or less;
if it is half a unit then the mantissa is even. -/
theorem nearestBits_eq_iff (pos : 0 < num) (pos' : 0 < den)
    (canonical : IsCanonical mantissa exponent)
    (finite : magnitudeBits mantissa exponent < infinityBits)
    (inside : mantissa ≠ twoPow 52 ∨ exponent = -1074) :
    nearestBits num den = magnitudeBits mantissa exponent ↔
      RoundsTo ((num : ℚ) / den / 2 ^ exponent) mantissa := by
  have posQ : (0 : ℚ) < num / den := div_pos (by exact_mod_cast pos) (by exact_mod_cast pos')
  obtain ⟨upper, lower⟩ := div_unitOf_bounds posQ
  obtain ⟨k, rounds⟩ := exists_roundsTo (div_nonneg posQ.le (zpow_two_pos (unitOf _)).le)
  constructor
  · intro eq
    rw [nearestBits_eq pos pos' rounds] at eq
    have le : k ≤ twoPow 53 := rounds.le_of_le (by rw [cast_twoPow]; exact upper.le)
    have full : twoPow 52 ≤ k ∨ unitOf (num / den) = -1074 :=
      lower.imp_left fun ge => rounds.le_of_ge (by rw [cast_twoPow]; exact ge)
    have same : magnitudeBits k (unitOf (num / den)) = magnitudeBits mantissa exponent := by omega
    obtain ⟨unit, rfl⟩ :=
      eq_of_magnitudeBits_eq canonical inside (le_max_right _ _) le full same
    rwa [show unitOf (num / den) = exponent from unit] at rounds
  · intro rounds
    have near := abs_le.mp rounds.within
    have small : (mantissa : ℚ) + 1 ≤ 2 ^ 53 := by
      rw [← cast_twoPow]
      exact_mod_cast canonical.small
    have unit : unitOf (num / den) = exponent := by
      refine unitOf_eq posQ canonical.least (by linarith) ?_
      rcases inside with ne | lowest
      · refine canonical.full.imp_left fun le => ?_
        have large : (2 : ℚ) ^ 52 + 1 ≤ mantissa := by
          rw [← cast_twoPow]
          exact_mod_cast Nat.lt_of_le_of_ne le ne.symm
        linarith
      · exact .inr lowest
    rw [← unit] at rounds
    rw [nearestBits_eq pos pos' rounds, unit]
    exact Nat.min_eq_left finite.le

/-- Below a power of two the doubles lie half as far apart, so a number is rounded to it if it
differs by less than a quarter of a unit. -/
theorem nearestBits_of_power (pos : 0 < num) (pos' : 0 < den) (normal : -1074 < exponent)
    (finite : magnitudeBits (twoPow 52) exponent < infinityBits)
    (near : |(num : ℚ) / den / 2 ^ exponent - 2 ^ 52| < 1 / 4) :
    nearestBits num den = magnitudeBits (twoPow 52) exponent := by
  have posQ : (0 : ℚ) < num / den := div_pos (by exact_mod_cast pos) (by exact_mod_cast pos')
  obtain ⟨above, below⟩ := abs_lt.mp near
  by_cases lower : (2 : ℚ) ^ 52 ≤ num / den / 2 ^ exponent
  · have unit : unitOf (num / den) = exponent :=
      unitOf_eq posQ normal.le (by linarith) (.inl lower)
    have rounds : RoundsTo ((num : ℚ) / den / 2 ^ unitOf (num / den)) (twoPow 52) := by
      left
      rw [unit, cast_twoPow]
      linarith
    rw [nearestBits_eq pos pos' rounds, unit]
    exact Nat.min_eq_left finite.le
  · -- the mantissa is rounded up to the next power, and the exponent is one less
    have twice : (num : ℚ) / den / 2 ^ (exponent - 1) = 2 * (num / den / 2 ^ exponent) := by
      rw [zpow_sub_one₀ two_ne_zero, ← div_div, div_inv_eq_mul, mul_comm]
    have unit : unitOf (num / den) = exponent - 1 := by
      refine unitOf_eq posQ (by omega) ?_ (.inl ?_)
      · rw [twice]; linarith
      · rw [twice]; linarith
    have rounds : RoundsTo ((num : ℚ) / den / 2 ^ unitOf (num / den)) (twoPow 53) := by
      left
      rw [unit, twice, cast_twoPow, abs_lt]
      constructor <;> linarith
    have same : magnitudeBits (twoPow 53) (exponent - 1) = magnitudeBits (twoPow 52) exponent := by
      have two52 : twoPow 52 = 4503599627370496 := rfl
      have two53 : twoPow 53 = 9007199254740992 := rfl
      rw [magnitudeBits, magnitudeBits, two52, two53]
      omega
    rw [nearestBits_eq pos pos' rounds, unit, same]
    exact Nat.min_eq_left finite.le

end Nearest

/-! ## Doubles by their bits -/

theorem eq_of_toBits_eq {x y : Float} (eq : x.toBits.toNat = y.toBits.toNat) : x = y := by
  rw [← ofBits_toBits x, ← ofBits_toBits y, UInt64.toNat_inj.mp eq]

/-- No pattern up to that of an infinity is a NaN. -/
theorem valid_of_le {bits : UInt64} {negative : Bool} {magnitude : ℕ}
    (eq : bits.toNat = signBits negative + magnitude) (le : magnitude ≤ infinityBits) :
    Format.binary64.Valid bits.toBitVec := by
  have two63 : twoPow 63 = 9223372036854775808 := rfl
  have top : infinityBits = 9218868437227405312 := rfl
  constructor
  intro full notEmpty
  have exponent : bits.toNat / 4503599627370496 % 2048 = 2047 := by
    have field : (@unpackExponent .binary64 bits.toBitVec).toNat =
        bits.toNat / 4503599627370496 % 2048 := by
      show (BitVec.extractLsb 62 52 bits.toBitVec).toNat = _
      rw [BitVec.extractLsb_toNat, Nat.shiftRight_eq_div_pow]
      rfl
    rw [← field, full]
    rfl
  have mantissa : bits.toNat % 4503599627370496 ≠ 0 := by
    have field : (@unpackMantissa .binary64 bits.toBitVec).toNat =
        bits.toNat % 4503599627370496 := by
      show (BitVec.extractLsb 51 0 bits.toBitVec).toNat = _
      rw [BitVec.extractLsb_toNat, Nat.shiftRight_zero]
      rfl
    rw [← field]
    exact fun zero => notEmpty (BitVec.eq_of_toNat_eq zero)
  rw [eq, signBits, two63] at exponent mantissa
  rw [top] at le
  split at exponent <;> simp_all <;> omega

/-- The bits of a finite double or an infinity are not changed. -/
theorem toBits_ofMagnitude (negative : Bool) {bits : ℕ} (le : bits ≤ infinityBits) :
    (ofMagnitude negative bits).toBits.toNat = signBits negative + bits := by
  have two63 : twoPow 63 = 9223372036854775808 := rfl
  have top : infinityBits = 9218868437227405312 := rfl
  have whole : (UInt64.ofNat (signBits negative + bits)).toNat = signBits negative + bits := by
    apply UInt64.toNat_ofNat_of_lt
    rw [signBits, two63, UInt64.size]
    split <;> omega
  have own := ofBits_toBits
    (.ofModel ⟨UInt64.ofNat (signBits negative + bits), valid_of_le whole le⟩)
  exact (congrArg (fun x => x.toBits.toNat) own).trans whole

/-- The bits of a mantissa and an exponent are those of their double. -/
theorem read_ofMagnitude (negative : Bool) {mantissa : ℕ} {exponent : ℤ}
    (canonical : IsCanonical mantissa exponent)
    (finite : magnitudeBits mantissa exponent < infinityBits) :
    read (ofMagnitude negative (magnitudeBits mantissa exponent)) =
      .finite negative mantissa exponent := by
  have bits := toBits_ofMagnitude negative finite.le
  obtain ⟨small, least, full⟩ := canonical
  have two11 : twoPow 11 = 2048 := rfl
  have two52 : twoPow 52 = 4503599627370496 := rfl
  have two53 : twoPow 53 = 9007199254740992 := rfl
  have two63 : twoPow 63 = 9223372036854775808 := rfl
  obtain ⟨shift, rfl⟩ : ∃ shift : ℕ, exponent = shift - 1074 := ⟨(exponent + 1074).toNat, by omega⟩
  rw [read, Reading.ofBits, bits]
  rw [magnitudeBits, show ((shift : ℤ) - 1074 + 1074).toNat = shift by omega] at finite ⊢
  rw [infinityBits, two52] at finite
  rw [two53] at small
  rw [two52] at full
  rw [signBits, two11, two52, two63]
  cases negative with
  | false =>
    have positive : ¬9223372036854775808 ≤ 0 + (shift * 4503599627370496 + mantissa) := by omega
    have notFull : (0 + (shift * 4503599627370496 + mantissa)) / 4503599627370496 % 2048 ≠ 2047 := by
      omega
    rw [if_neg Bool.false_ne_true, decide_eq_false positive, if_neg notFull]
    split <;> refine congrArg₂ (Reading.finite false) ?_ ?_ <;> omega
  | true =>
    have minus : 9223372036854775808 ≤
        9223372036854775808 + (shift * 4503599627370496 + mantissa) := by omega
    have notFull : (9223372036854775808 + (shift * 4503599627370496 + mantissa)) /
        4503599627370496 % 2048 ≠ 2047 := by omega
    rw [if_pos rfl, decide_eq_true minus, if_neg notFull]
    split <;> refine congrArg₂ (Reading.finite true) ?_ ?_ <;> omega

/-- The nearest double is a given one if it has its bits. -/
theorem nearest_eq_iff {x : Float} {negative : Bool} {mantissa num den : ℕ} {exponent : ℤ}
    (h : read x = .finite negative mantissa exponent) :
    nearest negative num den = x ↔ nearestBits num den = magnitudeBits mantissa exponent := by
  have bits := toBits_ofMagnitude negative (nearestBits_le num den)
  have own := toBits_of_finite h
  constructor
  · rintro rfl
    rw [nearest, bits] at own
    omega
  · intro eq
    apply eq_of_toBits_eq
    rw [nearest, bits, own, eq]

theorem nearest_congr {num den num' den' : ℕ} (negative : Bool) (pos : 0 < den) (pos' : 0 < den')
    (eq : (num : ℚ) / den = num' / den') :
    nearest negative num den = nearest negative num' den' := by
  rw [nearest, nearest, nearestBits_congr pos pos' eq]

end ValueMachine.Number
