import ValueMachine.Proofs.Number.Sums
import ValueMachine.Proofs.Number.Values

/-!
# Arithmetic of doubles

Each of the four operations computes the exact result, or as many of its bits as matter and whether
there are more, and shifts them until 53 are left. What is shifted out decides how the rest is
rounded, so that the outcome is the double nearest to the exact result.

Results:
* `ofModel_pack_roundWithAccuracy`: what the logical model rounds to;
* `isRounding_add`, `isRounding_sub`, `isRounding_mul`, `isRounding_div`: the operations;
* `value_add_mono`: adding keeps the order;
* `value_ceil`, `toCount_ceil`: rounding up to whole numbers and to counts.
-/

namespace ValueMachine.Number

open Float.Model Float.Model.UnpackedFloat

/-! ## Bits that are shifted out -/

/-- A mantissa stands for a number that is at least as great and less than one greater: by its two
extra bits, for the mantissa itself, or for what lies below, at or above the half. -/
def Stands (em : ExtendedMantissa) (q : ℚ) : Prop :=
  match em.roundBit, em.stickyBit with
  | false, false => q = em.mantissa
  | false, true => em.mantissa < q ∧ q < em.mantissa + 1 / 2
  | true, false => q = em.mantissa + 1 / 2
  | true, true => em.mantissa + 1 / 2 < q ∧ q < em.mantissa + 1

section Shifting

variable {em : ExtendedMantissa} {q : ℚ}

theorem Stands.bounds (stands : Stands em q) : em.mantissa ≤ q ∧ q < em.mantissa + 1 := by
  obtain ⟨m, _ | _, _ | _⟩ := em
  · obtain rfl : q = m := stands
    constructor <;> linarith
  · obtain ⟨above, below⟩ : (m : ℚ) < q ∧ q < m + 1 / 2 := stands
    constructor <;> linarith
  · obtain rfl : q = m + 1 / 2 := stands
    constructor <;> linarith
  · obtain ⟨above, below⟩ : (m : ℚ) + 1 / 2 < q ∧ q < m + 1 := stands
    constructor <;> linarith

/-- A bit that is shifted out becomes the round bit, and the bits behind it the sticky one. -/
theorem Stands.shiftRightOne (stands : Stands em q) : Stands em.shiftRightOne (q / 2) := by
  obtain ⟨m, r, s⟩ := em
  obtain ⟨half, rfl | rfl⟩ : ∃ half, m = 2 * half ∨ m = 2 * half + 1 := ⟨m / 2, by omega⟩
  · have quotient : 2 * half / 2 = half := by omega
    have bit : (2 * half % 2 != 0) = false := by simp
    rw [ExtendedMantissa.shiftRightOne, quotient, bit]
    cases r <;> cases s <;> simp only [Stands, Nat.cast_mul, Nat.cast_ofNat, Bool.or_self,
      Bool.or_true, Bool.true_or] at stands ⊢
    · linarith
    all_goals constructor <;> linarith
  · have quotient : (2 * half + 1) / 2 = half := by omega
    have bit : ((2 * half + 1) % 2 != 0) = true := by simp
    rw [ExtendedMantissa.shiftRightOne, quotient, bit]
    cases r <;> cases s <;> simp only [Stands, Nat.cast_mul, Nat.cast_ofNat, Nat.cast_add,
      Nat.cast_one, Bool.or_self, Bool.or_true, Bool.true_or] at stands ⊢
    · linarith
    all_goals constructor <;> linarith

theorem Stands.shiftRight (stands : Stands em q) (shift : ℕ) :
    Stands (em >>> shift) (q / 2 ^ shift) := by
  show Stands (shift.repeat ExtendedMantissa.shiftRightOne em) _
  induction shift with
  | zero => rwa [pow_zero, div_one]
  | succ shift ih =>
    rw [Nat.repeat, pow_succ, ← div_div]
    exact ih.shiftRightOne

/-- The extra bits tell which way to round. -/
theorem Stands.roundsTo (stands : Stands em q) : RoundsTo q em.roundedMantissa := by
  obtain ⟨m, r, s⟩ := em
  have near (k : ℕ) (below : (k : ℚ) - 1 / 2 < q) (above : q < k + 1 / 2) : RoundsTo q k :=
    .inl (abs_lt.mpr ⟨by linarith, by linarith⟩)
  cases r <;> cases s
  · obtain rfl : q = m := stands
    exact near m (by linarith) (by linarith)
  · obtain ⟨above, below⟩ : (m : ℚ) < q ∧ q < m + 1 / 2 := stands
    exact near m (by linarith) below
  · obtain rfl : q = m + 1 / 2 := stands
    show RoundsTo _ (m + m % 2)
    refine .inr ⟨?_, by omega⟩
    obtain even | odd := Nat.mod_two_eq_zero_or_one m
    · rw [even]
      norm_num
    · rw [odd]
      norm_num
  · obtain ⟨above, below⟩ : (m : ℚ) + 1 / 2 < q ∧ q < m + 1 := stands
    refine near (m + 1) ?_ ?_ <;> push_cast <;> linarith

end Shifting

/-! ## Rounding in the logical model -/

section Rounding

variable {m : ℕ} {e : ℤ} {accuracy : Accuracy} {q : ℚ}

theorem mantissa_ofMantissaAndAccuracy (m : ℕ) (accuracy : Accuracy) :
    (ExtendedMantissa.ofMantissaAndAccuracy m accuracy).mantissa = m := by
  rcases accuracy with _ | _ | _ | _ <;> rfl

theorem targetExponent_of_pos (some : 0 < m)
    (stands : Stands (.ofMantissaAndAccuracy m accuracy) (q / 2 ^ e)) :
    Format.binary64.targetExponent (totalExponent m e) = unitOf q := by
  have unit := zpow_two_pos e
  obtain ⟨lower, upper⟩ := stands.bounds
  rw [mantissa_ofMantissaAndAccuracy] at lower upper
  rw [le_div_iff₀ unit] at lower
  rw [div_lt_iff₀ unit] at upper
  have log : Int.log 2 q = m.log2 + e := by
    have next : ((m + 1 : ℕ) : ℚ) ≤ 2 ^ (m.log2 + 1) := by
      exact_mod_cast @Nat.lt_log2_self m
    refine log_eq one_lt_two ?_ ?_
    · push_cast
      rw [zpow_add₀ two_ne_zero]
      exact (mul_le_mul_of_nonneg_right (log2_bounds some).1 unit.le).trans lower
    · push_cast at next ⊢
      rw [add_right_comm, zpow_add₀ two_ne_zero, ← Nat.cast_add_one, zpow_natCast]
      exact upper.trans_le (mul_le_mul_of_nonneg_right next unit.le)
  show max (((m.log2 : ℤ) + 1 + e) - 53) (-1074) = unitOf q
  rw [unitOf, log]
  omega

/-- The exponent that is shifted to is that of the last bit of the nearest double. -/
theorem targetExponent_eq (pos : 0 < q)
    (stands : Stands (.ofMantissaAndAccuracy m accuracy) (q / 2 ^ e)) (le : e ≤ unitOf q) :
    Format.binary64.targetExponent (totalExponent m e) = unitOf q := by
  rcases Nat.eq_zero_or_pos m with rfl | some
  · -- a number below the unit of the exponent has no more than the least unit
    have upper := stands.bounds.2
    rw [mantissa_ofMantissaAndAccuracy, Nat.cast_zero, zero_add, div_lt_one (zpow_two_pos e)]
      at upper
    have below : q < 2 ^ unitOf q := upper.trans_le (zpow_le_zpow_right₀ one_le_two le)
    have least : unitOf q = -1074 := by
      refine (div_unitOf_bounds pos).2.resolve_left fun full => ?_
      rw [le_div_iff₀ (zpow_two_pos _)] at full
      linarith
    show max ((((0 : ℕ).log2 : ℤ) + 1 + e) - 53) (-1074) = unitOf q
    rw [show Nat.log2 0 = 0 from rfl]
    omega
  · exact targetExponent_of_pos some stands

/-- Shifting leaves as many bits as the nearest double has. -/
theorem exists_shifted (pos : 0 < q)
    (stands : Stands (.ofMantissaAndAccuracy m accuracy) (q / 2 ^ e)) (le : e ≤ unitOf q) :
    ∃ em, shiftToTargetExponent .binary64 m e accuracy = (em, unitOf q) ∧
      Stands em (q / 2 ^ unitOf q) := by
  obtain ⟨shift, eq⟩ : ∃ shift : ℕ, unitOf q = e + shift := ⟨(unitOf q - e).toNat, by omega⟩
  have shifted := stands.shiftRight shift
  rw [div_div, ← zpow_natCast, ← zpow_add₀ two_ne_zero, ← eq] at shifted
  refine ⟨_, ?_, shifted⟩
  rw [shiftToTargetExponent, targetExponent_eq pos stands le, shiftToExponent, eq,
    add_sub_cancel_left, Int.toNat_natCast]

/-- The double whose parts are packed. -/
theorem ofModel_pack {x : Float} {parts : UnpackedFloat} (unpacked : x.toModel.unpack = parts) :
    Float.ofModel (.pack parts) = x := by
  rw [← unpacked]
  exact pack_unpack_toModel x

theorem ofModel_pack_infinity (negative : Bool) :
    Float.ofModel (.pack (.infinity (modelSign negative))) = infinity negative := by
  refine ofModel_pack ?_
  rw [unpack_eq, read_infinity]

theorem ofModel_pack_zero (negative : Bool) :
    Float.ofModel (.pack (.zero (modelSign negative))) = zero negative := by
  refine ofModel_pack ?_
  rw [unpack_eq, read_zero]
  rfl

/-- Parts whose exponent is too great are packed as an infinity. -/
theorem ofModel_pack_overflow (negative : Bool) {m : ℕ} {e : ℤ} (pos : 0 < m) (large : 971 < e) :
    Float.ofModel (.pack (.finite (modelSign negative) m e pos)) = infinity negative := by
  have full : 2 ^ 11 ≤ (e + 1023 + 52).toNat + 1 := by omega
  have same : UnpackedFloat.pack .binary64 (.finite (modelSign negative) m e pos) =
      UnpackedFloat.pack .binary64 (.infinity (modelSign negative)) := if_pos full
  rw [← ofModel_pack_infinity, Float.Model.pack, Float.Model.pack]
  congr 3

/-- A mantissa that has been rounded is shifted once more if it has got too long. -/
theorem exists_carried {k : ℕ} {unit : ℤ} (least : -1074 ≤ unit) (le : k ≤ twoPow 53)
    (full : twoPow 52 ≤ k ∨ unit = -1074) :
    ∃ mantissa exponent, IsCanonical mantissa exponent ∧
      magnitudeBits mantissa exponent = magnitudeBits k unit ∧
      shiftToTargetExponent .binary64 k unit .exact = (⟨mantissa, false, false⟩, exponent) := by
  have two52 : twoPow 52 = 4503599627370496 := rfl
  have two53 : twoPow 53 = 9007199254740992 := rfl
  rcases le.lt_or_eq with lt | rfl
  · have canonical : IsCanonical k unit := ⟨lt, least, full⟩
    refine ⟨k, unit, canonical, rfl, ?_⟩
    rcases Nat.eq_zero_or_pos k with rfl | pos
    · obtain rfl := full.resolve_left (by omega)
      rfl
    · have exact := shiftToTargetExponent_exact canonical pos 0
      rwa [pow_zero, mul_one, Nat.cast_zero, sub_zero] at exact
  · have canonical : IsCanonical (twoPow 52) (unit + 1) := ⟨by omega, by omega, .inl le_rfl⟩
    refine ⟨twoPow 52, unit + 1, canonical, ?_, ?_⟩
    · rw [magnitudeBits, magnitudeBits, two52, two53]
      omega
    · have exact := shiftToTargetExponent_exact canonical (twoPow_pos 52) 1
      rwa [pow_one, Nat.cast_one, add_sub_cancel_right] at exact

/-- The logical model rounds to the nearest double. -/
theorem ofModel_pack_roundWithAccuracy (negative : Bool) (pos : 0 < q)
    (stands : Stands (.ofMantissaAndAccuracy m accuracy) (q / 2 ^ e)) (le : e ≤ unitOf q) :
    Float.ofModel (.pack (roundWithAccuracy .binary64 (modelSign negative) m e accuracy)) =
      nearest negative q.num.natAbs q.den := by
  obtain ⟨em, shifted, stands⟩ := exists_shifted pos stands le
  have rounds := stands.roundsTo
  have whole : (q.num.natAbs : ℚ) / q.den = q := by rw [← abs_eq_natAbs_div, abs_of_pos pos]
  have num : 0 < q.num.natAbs := Int.natAbs_pos.mpr (Rat.num_pos.mpr pos).ne'
  rw [roundWithAccuracy, shifted]
  dsimp only
  generalize em.roundedMantissa = k at rounds
  obtain ⟨upper, lower⟩ := div_unitOf_bounds pos
  have le : k ≤ twoPow 53 := rounds.le_of_le (by rw [cast_twoPow]; exact upper.le)
  have full : twoPow 52 ≤ k ∨ unitOf q = -1074 :=
    lower.imp_left fun ge => rounds.le_of_ge (by rw [cast_twoPow]; exact ge)
  obtain ⟨mantissa, exponent, canonical, bits, carried⟩ :=
    exists_carried (show -1074 ≤ unitOf q from le_max_right _ _) le full
  rw [← whole] at rounds bits
  rw [nearest, nearestBits_eq num q.den_pos rounds, ← bits]
  rw [carried]
  dsimp only
  split
  · next none =>
    obtain rfl : exponent = -1074 := by
      refine canonical.full.resolve_left fun large => ?_
      have := twoPow_pos 52
      omega
    subst none
    exact ofModel_pack_zero negative
  · next some =>
    by_cases finite : magnitudeBits mantissa exponent < infinityBits
    · rw [Nat.min_eq_left finite.le]
      refine ofModel_pack ?_
      rw [unpack_eq, read_ofMagnitude negative canonical finite]
      exact dif_neg some
    · rw [Nat.min_eq_right (not_lt.mp finite)]
      exact ofModel_pack_overflow negative _ (not_le.mp (mt canonical.finite_iff.mpr finite))

/-- A mantissa of any size is brought to the exponent of the nearest double first. -/
theorem ofModel_pack_round (negative : Bool) (some : 0 < m) (e : ℤ) :
    Float.ofModel (.pack (UnpackedFloat.round .binary64 (modelSign negative) m e)) =
      nearest negative ((m : ℚ) * 2 ^ e).num.natAbs ((m : ℚ) * 2 ^ e).den := by
  have unit := zpow_two_pos e
  have pos : (0 : ℚ) < m * 2 ^ e := mul_pos (by exact_mod_cast some) unit
  have own : Stands (.ofMantissaAndAccuracy m .exact) (m * 2 ^ e / 2 ^ e) :=
    mul_div_cancel_right₀ _ unit.ne'
  rw [UnpackedFloat.round, targetExponent_of_pos some own]
  dsimp only [decreaseExponent]
  generalize shift_eq : (e - unitOf (m * 2 ^ e)).toNat = shift
  refine ofModel_pack_roundWithAccuracy negative pos ?_ (by omega)
  have scaled : (m : ℚ) * 2 ^ e / 2 ^ (e - shift) = (m <<< shift : ℕ) := by
    rw [Nat.shiftLeft_eq, zpow_sub₀ two_ne_zero, zpow_natCast]
    push_cast
    field_simp
  exact scaled

end Rounding

/-! ## Roundings -/

/-- The double is the number, rounded; the sign of a zero does not matter. -/
def IsRounding (q : ℚ) (x : Float) : Prop := read x ≠ .nan ∧ value x = value (rounded q)

section Operations

variable {x y : Float} {q : ℚ}

theorem read_ne_nan_of_isFinite (finite : x.isFinite = true) : read x ≠ .nan := by
  obtain ⟨_, _, _, reads⟩ := isFinite_iff.mp finite
  rw [reads]
  exact Reading.noConfusion

/-- A double is its own rounding. -/
theorem isRounding_of_isFinite (finite : x.isFinite = true) : IsRounding (value x) x :=
  ⟨read_ne_nan_of_isFinite finite, (value_rounded finite).symm⟩

theorem IsRounding.isFinite (rounding : IsRounding q x) (below : |q| < reach) :
    x.isFinite = true := by
  obtain ⟨-, finite, -⟩ | ⟨above, -⟩ := rounded_spec q
  · rw [isFinite_iff_abs_value_lt rounding.1, rounding.2]
    exact abs_value_lt_reach finite
  · exact absurd below (not_lt.mpr above)

/-- A number of 53 bits is not changed by rounding. -/
theorem IsRounding.exact {i u : ℤ} (rounding : IsRounding (i * 2 ^ u) x)
    (small : i.natAbs ≤ 2 ^ 53) (least : -1074 ≤ u) (most : u ≤ 970) :
    x.isFinite = true ∧ value x = i * 2 ^ u := by
  obtain ⟨finite, eq⟩ := rounded_of_multiple small least most
  rw [isFinite_iff_abs_value_lt rounding.1, rounding.2]
  exact ⟨abs_value_lt_reach finite, eq⟩

theorem isRounding_zero (sign : Sign) : IsRounding 0 (Float.ofModel (.pack (.zero sign))) := by
  have isZero (negative : Bool) : IsRounding 0 (zero negative) := by
    have finite : (zero negative).isFinite = true := isFinite_iff.mpr ⟨_, _, _, read_zero _⟩
    have none : value (zero negative) = 0 := by simp [value_of_finite (read_zero negative)]
    have own := isRounding_of_isFinite finite
    rwa [none] at own
  cases sign with
  | negative => exact (ofModel_pack_zero true).symm ▸ isZero true
  | positive => exact (ofModel_pack_zero false).symm ▸ isZero false

theorem isRounding_nearest (negative : Bool) (pos : 0 < q) :
    IsRounding (signOf negative * q) (nearest negative q.num.natAbs q.den) := by
  have magnitude : |signOf negative * q| = q.num.natAbs / q.den := by
    rw [abs_signOf_mul negative pos.le, ← abs_eq_natAbs_div, abs_of_pos pos]
  have sign : decide (signOf negative * q < 0) = negative := by
    cases negative <;> simp [signOf, pos, pos.le]
  have same := nearest_eq_rounded q.den_pos magnitude
  rw [sign] at same
  rw [same]
  exact ⟨read_rounded_ne_nan _, rfl⟩

theorem isRounding_normalize (i e : ℤ) :
    IsRounding (i * 2 ^ e)
      (Float.ofModel (.pack (UnpackedFloat.normalize .binary64 i e .positive))) := by
  rw [UnpackedFloat.normalize]
  rcases lt_trichotomy i 0 with negative | rfl | positive
  · rw [Int.compare_eq_lt.mpr negative]
    obtain ⟨n, rfl⟩ : ∃ n : ℕ, i = -n := ⟨i.natAbs, by omega⟩
    have some : 0 < n := by omega
    have pos : (0 : ℚ) < n * 2 ^ e := mul_pos (by exact_mod_cast some) (zpow_two_pos e)
    have rounding := isRounding_nearest true pos
    rw [← ofModel_pack_round true some e, signOf, if_pos rfl] at rounding
    have value : ((-n : ℤ) : ℚ) * 2 ^ e = -1 * (n * 2 ^ e) := by
      push_cast
      ring
    rw [neg_neg, Int.toNat_natCast, value]
    exact rounding
  · rw [Int.compare_eq_eq.mpr rfl, Int.cast_zero, zero_mul]
    exact isRounding_zero _
  · rw [Int.compare_eq_gt.mpr positive]
    obtain ⟨n, rfl⟩ : ∃ n : ℕ, i = n := ⟨i.natAbs, by omega⟩
    have some : 0 < n := by omega
    have pos : (0 : ℚ) < n * 2 ^ e := mul_pos (by exact_mod_cast some) (zpow_two_pos e)
    have rounding := isRounding_nearest false pos
    rw [← ofModel_pack_round false some e, signOf, if_neg Bool.false_ne_true, one_mul] at rounding
    rw [Int.toNat_natCast]
    exact rounding

/-- What the logical model reads off a finite double. -/
theorem unpack_cases (finite : x.isFinite = true) :
    (∃ s, x.toModel.unpack = .zero s ∧ value x = 0) ∨
      ∃ negative m e pos, x.toModel.unpack = .finite (modelSign negative) m e pos ∧
        IsCanonical m e ∧ value x = signOf negative * (m * 2 ^ e) := by
  obtain ⟨negative, m, e, reads⟩ := isFinite_iff.mp finite
  have unpacked := unpack_eq x
  rw [reads] at unpacked
  by_cases none : m = 0
  · exact .inl ⟨_, unpacked.trans (dif_pos none), by simp [value_of_finite reads, none]⟩
  · exact .inr ⟨negative, m, e, Nat.pos_of_ne_zero none, unpacked.trans (dif_neg none),
      isCanonical_of_finite reads, value_of_finite reads⟩

/-! ## Sums and differences -/

theorem cast_apply (negative : Bool) (n : ℕ) :
    (((modelSign negative).apply n : ℤ) : ℚ) = signOf negative * n := by
  cases negative <;> simp [modelSign, Sign.apply, signOf]

theorem isRounding_add (hx : x.isFinite = true) (hy : y.isFinite = true) :
    IsRounding (value x + value y) (x + y) := by
  show IsRounding _ (Float.ofModel (.pack
    (UnpackedFloat.add .binary64 x.toModel.unpack y.toModel.unpack)))
  obtain ⟨s, parts, none⟩ | ⟨negative, m, e, some, parts, -, eq⟩ := unpack_cases hx <;>
    obtain ⟨s', parts', none'⟩ | ⟨negative', m', e', some', parts', -, eq'⟩ := unpack_cases hy
  · rw [parts, parts', none, none', add_zero]
    show IsRounding 0 (Float.ofModel (.pack (if s == s' then .zero s else .zero .positive)))
    split <;> exact isRounding_zero _
  · rw [parts, parts', none, zero_add]
    exact (ofModel_pack parts').symm ▸ isRounding_of_isFinite hy
  · rw [parts, parts', none', add_zero]
    exact (ofModel_pack parts).symm ▸ isRounding_of_isFinite hx
  · rw [parts, parts']
    let least := min e e'
    have aligned : value x + value y = (((modelSign negative).apply (m <<< (e - least).toNat : ℕ) +
        (modelSign negative').apply (m' <<< (e' - least).toNat : ℕ) : ℤ) : ℚ) * 2 ^ least := by
      rw [Int.cast_add, cast_apply, cast_apply, add_mul, mul_assoc, mul_assoc,
        shiftLeft_mul_unit m (min_le_left _ _), shiftLeft_mul_unit m' (min_le_right _ _), eq, eq']
    rw [aligned]
    exact isRounding_normalize _ _

/-- A difference is a sum with the negated number. -/
theorem sub_eq_add (format : Format) (a b : UnpackedFloat) :
    a.sub format b = a.add format b.neg := by
  cases a <;> cases b <;> try rfl
  next s m e _ s' m' e' _ =>
    show UnpackedFloat.normalize format (s.apply _ - s'.apply _) _ _ =
      UnpackedFloat.normalize format (s.apply _ + (-s').apply _) _ _
    have signed (n : ℤ) : (-s').apply n = -s'.apply n := by
      cases s' with
      | negative => exact (neg_neg n).symm
      | positive => rfl
    rw [signed, ← sub_eq_add_neg]

theorem exists_negated (finite : y.isFinite = true) : ∃ y' : Float, y'.isFinite = true ∧
    value y' = -value y ∧ y'.toModel.unpack = y.toModel.unpack.neg := by
  obtain ⟨negative, m, e, reads⟩ := isFinite_iff.mp finite
  have reads' := read_ofMagnitude (!negative) (isCanonical_of_finite reads) (magnitudeBits_lt reads)
  refine ⟨_, isFinite_iff.mpr ⟨_, _, _, reads'⟩, ?_, ?_⟩
  · rw [value_of_finite reads, value_of_finite reads', signOf, signOf]
    cases negative <;> simp
  · rw [unpack_eq, reads', unpack_eq, reads]
    dsimp only
    split <;> cases negative <;> rfl

theorem isRounding_sub (hx : x.isFinite = true) (hy : y.isFinite = true) :
    IsRounding (value x - value y) (x - y) := by
  obtain ⟨y', finite, negated, parts⟩ := exists_negated hy
  have sum := isRounding_add hx finite
  have same : x - y = x + y' := by
    show Float.ofModel (.pack (UnpackedFloat.sub .binary64 x.toModel.unpack y.toModel.unpack)) =
      Float.ofModel (.pack (UnpackedFloat.add .binary64 x.toModel.unpack y'.toModel.unpack))
    rw [sub_eq_add, parts]
  rwa [negated, ← sub_eq_add_neg, ← same] at sum

/-- An infinity that is added to a finite number stays. -/
theorem add_infinite {negative : Bool} (hx : x.isFinite = true)
    (infinite : read y = .infinite negative) : x + y = y := by
  have parts' := unpack_eq y
  rw [infinite] at parts'
  have same : UnpackedFloat.add .binary64 x.toModel.unpack y.toModel.unpack = y.toModel.unpack := by
    rw [parts']
    obtain ⟨s, parts, -⟩ | ⟨s, m, e, some, parts, -⟩ := unpack_cases hx <;> rw [parts] <;> rfl
  show Float.ofModel (.pack (UnpackedFloat.add .binary64 x.toModel.unpack y.toModel.unpack)) = y
  rw [same, ofModel_pack rfl]

theorem read_add_ne_nan (hx : x.isFinite = true) (number : read y ≠ .nan) :
    read (x + y) ≠ .nan := by
  obtain finite | ⟨negative, infinite, -⟩ := finite_or_infinite number
  · exact (isRounding_add hx finite).1
  · rwa [add_infinite hx infinite]

/-- Adding to a finite number keeps the order. -/
theorem value_add_mono {z : Float} (hx : x.isFinite = true) (hy : read y ≠ .nan)
    (hz : read z ≠ .nan) (le : value y ≤ value z) : value (x + y) ≤ value (x + z) := by
  have bottom := (abs_le.mp (abs_value_le (x + z))).1
  have top := (abs_le.mp (abs_value_le (x + y))).2
  have far := reach_lt
  obtain finite | ⟨negative, infinite, size⟩ := finite_or_infinite hy
  · obtain finite' | ⟨negative, infinite, size⟩ := finite_or_infinite hz
    · rw [(isRounding_add hx finite).2, (isRounding_add hx finite').2]
      exact rounded_mono (add_le_add_right le (value x))
    · rw [add_infinite hx infinite, size]
      cases negative with
      | false => exact top.trans_eq (one_mul _).symm
      | true =>
        have above := (abs_lt.mp (abs_value_lt_reach finite)).1
        rw [size, signOf, if_pos rfl] at le
        linarith
  · rw [add_infinite hx infinite]
    cases negative with
    | true => exact (size.trans (neg_one_mul _)).trans_le bottom
    | false =>
      rw [signOf, if_neg Bool.false_ne_true, one_mul] at size
      obtain finite' | ⟨negative, infinite', -⟩ := finite_or_infinite hz
      · have below := (abs_lt.mp (abs_value_lt_reach finite')).2
        linarith
      · exact le.trans_eq (congrArg value (add_infinite hx infinite').symm)

/-! ## Products -/

theorem signOf_xor (negative negative' : Bool) :
    signOf (negative ^^ negative') = signOf negative * signOf negative' := by
  cases negative <;> cases negative' <;> simp [signOf]

theorem modelSign_mul (negative negative' : Bool) :
    modelSign negative * modelSign negative' = modelSign (negative ^^ negative') := by
  cases negative <;> cases negative' <;> rfl

/-- A product has at least as many bits as either factor. -/
theorem IsCanonical.add_le_unitOf {m m' : ℕ} {e e' : ℤ} (h : IsCanonical m e)
    (h' : IsCanonical m' e') (some : 0 < m) (some' : 0 < m') :
    e + e' ≤ unitOf (((m * m' : ℕ) : ℚ) * 2 ^ (e + e')) := by
  by_cases full : twoPow 52 ≤ m * m'
  · have large : (2 : ℚ) ^ (52 + (e + e')) ≤ ((m * m' : ℕ) : ℚ) * 2 ^ (e + e') := by
      rw [zpow_add₀ two_ne_zero]
      refine mul_le_mul_of_nonneg_right ?_ (zpow_two_pos _).le
      have := (Nat.cast_le (α := ℚ)).mpr full
      rwa [cast_twoPow] at this
    have log := (Int.zpow_le_iff_le_log one_lt_two (lt_of_lt_of_le (zpow_two_pos _) large)).mp large
    rw [unitOf]
    omega
  · have left : m ≤ m * m' := Nat.le_mul_of_pos_right m some'
    have right : m' ≤ m * m' := Nat.le_mul_of_pos_left m' some
    obtain rfl := h.full.resolve_left (by omega)
    obtain rfl := h'.full.resolve_left (by omega)
    rw [unitOf]
    omega

theorem isRounding_mul (hx : x.isFinite = true) (hy : y.isFinite = true) :
    IsRounding (value x * value y) (x * y) := by
  show IsRounding _ (Float.ofModel (.pack
    (UnpackedFloat.mul .binary64 x.toModel.unpack y.toModel.unpack)))
  obtain ⟨s, parts, none⟩ | ⟨negative, m, e, some, parts, canonical, eq⟩ := unpack_cases hx <;>
    obtain ⟨s', parts', none'⟩ | ⟨negative', m', e', some', parts', canonical', eq'⟩ :=
      unpack_cases hy
  · rw [parts, parts', none, zero_mul]
    exact isRounding_zero _
  · rw [parts, parts', none, zero_mul]
    exact isRounding_zero _
  · rw [parts, parts', none', mul_zero]
    exact isRounding_zero _
  · have pos : (0 : ℚ) < ((m * m' : ℕ) : ℚ) * 2 ^ (e + e') :=
      mul_pos (by exact_mod_cast Nat.mul_pos some some') (zpow_two_pos _)
    have product : value x * value y =
        signOf (negative ^^ negative') * (((m * m' : ℕ) : ℚ) * 2 ^ (e + e')) := by
      rw [eq, eq', signOf_xor, zpow_add₀ two_ne_zero]
      push_cast
      ring
    have own : Stands (.ofMantissaAndAccuracy (m * m') .exact)
        (((m * m' : ℕ) : ℚ) * 2 ^ (e + e') / 2 ^ (e + e')) :=
      mul_div_cancel_right₀ _ (zpow_two_pos _).ne'
    rw [parts, parts', product]
    show IsRounding _ (Float.ofModel (.pack (roundWithAccuracy .binary64
      (modelSign negative * modelSign negative') (m * m') (e + e') .exact)))
    rw [modelSign_mul, ofModel_pack_roundWithAccuracy _ pos own
      (canonical.add_le_unitOf canonical' some some')]
    exact isRounding_nearest _ pos

/-! ## Quotients -/

theorem modelSign_div (negative negative' : Bool) :
    modelSign negative / modelSign negative' = modelSign (negative ^^ negative') := by
  cases negative <;> cases negative' <;> rfl

/-- A quotient of natural numbers, and what its remainder tells. -/
theorem stands_quotient (n : ℕ) {d : ℕ} (pos : 0 < d) :
    Stands (.ofMantissaAndAccuracy (n / d) (accuracyOfFraction (n % d) d)) ((n : ℚ) / d) := by
  have posQ : (0 : ℚ) < d := by exact_mod_cast pos
  have whole : (n : ℚ) / d = (n / d : ℕ) + (n % d : ℕ) / d := by
    have division := congrArg (Nat.cast (R := ℚ)) (Nat.div_add_mod n d)
    push_cast at division
    rw [← division]
    field_simp
  have lt := Nat.mod_lt n pos
  rw [whole, accuracyOfFraction]
  generalize n / d = k at *
  generalize n % d = r at *
  by_cases none : r = 0
  · rw [if_pos none, none]
    show (k : ℚ) + (0 : ℕ) / d = k
    rw [Nat.cast_zero, zero_div, add_zero]
  · have posR : 0 < (r : ℚ) / d := div_pos (by exact_mod_cast Nat.pos_of_ne_zero none) posQ
    rw [if_neg none]
    rcases lt_trichotomy (2 * r) d with less | half | above
    · have below : (r : ℚ) / d < 1 / 2 := by
        rw [div_lt_div_iff₀ posQ two_pos]
        exact_mod_cast (by omega : r * 2 < 1 * d)
      rw [Nat.compare_eq_lt.mpr less]
      show (k : ℚ) < k + r / d ∧ (k : ℚ) + r / d < k + 1 / 2
      constructor <;> linarith
    · have half' : (r : ℚ) / d = 1 / 2 := by
        rw [div_eq_div_iff posQ.ne' two_ne_zero]
        exact_mod_cast (by omega : r * 2 = 1 * d)
      rw [Nat.compare_eq_eq.mpr half, half']
      rfl
    · have above' : 1 / 2 < (r : ℚ) / d := by
        rw [div_lt_div_iff₀ two_pos posQ]
        exact_mod_cast (by omega : 1 * d < r * 2)
      have below : (r : ℚ) / d < 1 := by
        rw [div_lt_one posQ]
        exact_mod_cast lt
      rw [Nat.compare_eq_gt.mpr above]
      show (k : ℚ) + 1 / 2 < k + r / d ∧ (k : ℚ) + r / d < k + 1
      constructor <;> linarith

/-- A quotient begins at the difference of the places at which its terms begin, or one below. -/
theorem targetExponent_le_unitOf {m m' : ℕ} (e e' : ℤ) (some : 0 < m) (some' : 0 < m') :
    Format.binary64.targetExponent (totalExponent m e - totalExponent m' e') ≤
      unitOf (m * 2 ^ e / (m' * 2 ^ e')) := by
  have unit' := zpow_two_pos e'
  have below : (2 : ℚ) ^ ((m.log2 : ℤ) + e) ≤ m * 2 ^ e := by
    rw [zpow_add₀ two_ne_zero]
    exact mul_le_mul_of_nonneg_right (log2_bounds some).1 (zpow_two_pos e).le
  have above : (m' : ℚ) * 2 ^ e' ≤ 2 ^ ((m'.log2 : ℤ) + 1 + e') := by
    rw [zpow_add₀ two_ne_zero]
    exact mul_le_mul_of_nonneg_right (log2_bounds some').2.le unit'.le
  have large : (2 : ℚ) ^ (((m.log2 : ℤ) + e) - ((m'.log2 : ℤ) + 1 + e')) ≤
      m * 2 ^ e / (m' * 2 ^ e') := by
    rw [zpow_sub₀ two_ne_zero]
    refine div_le_div₀ ((zpow_two_pos _).le.trans below) below ?_ above
    exact mul_pos (by exact_mod_cast some') unit'
  have log := (Int.zpow_le_iff_le_log one_lt_two (lt_of_lt_of_le (zpow_two_pos _) large)).mp large
  show max (((m.log2 : ℤ) + 1 + e) - ((m'.log2 : ℤ) + 1 + e') - 53) (-1074) ≤ _
  rw [unitOf]
  omega

theorem isRounding_div (hx : x.isFinite = true) (hy : y.isFinite = true) (ne : value y ≠ 0) :
    IsRounding (value x / value y) (x / y) := by
  show IsRounding _ (Float.ofModel (.pack
    (UnpackedFloat.div .binary64 x.toModel.unpack y.toModel.unpack)))
  obtain ⟨s', -, none'⟩ | ⟨negative', m', e', some', parts', -, eq'⟩ := unpack_cases hy
  · exact absurd none' ne
  obtain ⟨s, parts, none⟩ | ⟨negative, m, e, some, parts, -, eq⟩ := unpack_cases hx
  · rw [parts, parts', none, zero_div]
    exact isRounding_zero _
  · have unit := zpow_two_pos e
    have unit' := zpow_two_pos e'
    have posQ : (0 : ℚ) < m := by exact_mod_cast some
    have posQ' : (0 : ℚ) < m' := by exact_mod_cast some'
    have pos : (0 : ℚ) < m * 2 ^ e / (m' * 2 ^ e') := div_pos (by positivity) (by positivity)
    have quotient : value x / value y =
        signOf (negative ^^ negative') * (m * 2 ^ e / (m' * 2 ^ e')) := by
      have sign : signOf negative / signOf negative' = signOf negative * signOf negative' := by
        cases negative <;> cases negative' <;> norm_num [signOf]
      rw [eq, eq', signOf_xor, mul_div_mul_comm, sign]
    rw [parts, parts', quotient]
    let t := min (e - e') (Format.binary64.targetExponent (totalExponent m e - totalExponent m' e'))
    have shifted : (m : ℚ) * 2 ^ e / (m' * 2 ^ e') / 2 ^ t =
        ((m <<< (e - e' - t).toNat : ℕ) : ℚ) / m' := by
      have aligned := shiftLeft_mul_unit m (min_le_left _ _ : t ≤ e - e')
      rw [div_eq_div_iff (zpow_two_pos t).ne' posQ'.ne', aligned, zpow_sub₀ two_ne_zero]
      field_simp
    have stands := stands_quotient (m <<< (e - e' - t).toNat) some'
    rw [← shifted] at stands
    show IsRounding _ (Float.ofModel (.pack (roundWithAccuracy .binary64
      (modelSign negative / modelSign negative') _ t _)))
    rw [modelSign_div, ofModel_pack_roundWithAccuracy _ pos stands
      ((min_le_right _ _).trans (targetExponent_le_unitOf e e' some some'))]
    exact isRounding_nearest _ pos

/-- An infinity that is divided stays one. -/
theorem div_infinite {negative : Bool} (infinite : read x = .infinite negative)
    (hy : y.isFinite = true) (ne : value y ≠ 0) :
    read (x / y) = .infinite (negative ^^ decide (value y < 0)) := by
  have parts := unpack_eq x
  rw [infinite] at parts
  obtain ⟨s, -, none⟩ | ⟨negative', m, e, some, parts', -, eq⟩ := unpack_cases hy
  · exact absurd none ne
  have pos : (0 : ℚ) < m * 2 ^ e := mul_pos (by exact_mod_cast some) (zpow_two_pos e)
  have sign : decide (value y < 0) = negative' := by
    rw [eq]
    cases negative' <;> simp [signOf, pos, pos.le]
  have quotient : UnpackedFloat.div .binary64 x.toModel.unpack y.toModel.unpack =
      .infinity (modelSign (negative ^^ negative')) := by
    rw [parts, parts', ← modelSign_div]
    rfl
  show read (Float.ofModel (.pack
    (UnpackedFloat.div .binary64 x.toModel.unpack y.toModel.unpack))) = _
  rw [quotient, ofModel_pack_infinity, read_infinity, sign]

/-! ## Whole numbers -/

theorem value_nearest_natCast (negative : Bool) {n : ℕ} (small : n ≤ 2 ^ 53) :
    (nearest negative n 1).isFinite = true ∧
      value (nearest negative n 1) = signOf negative * n := by
  rcases Nat.eq_zero_or_pos n with rfl | pos
  · have reads : read (nearest negative 0 1) = .finite negative 0 (-1074) := read_zero negative
    exact ⟨isFinite_iff.mpr ⟨_, _, _, reads⟩, by simp [value_of_finite reads]⟩
  · have rounding := isRounding_nearest negative (show (0 : ℚ) < n by exact_mod_cast pos)
    rw [Rat.num_natCast, Rat.den_natCast, Int.natAbs_natCast] at rounding
    obtain ⟨i, size, eq⟩ : ∃ i : ℤ, i.natAbs = n ∧ signOf negative * n = i * 2 ^ (0 : ℤ) := by
      cases negative
      · exact ⟨n, by simp, by simp [signOf]⟩
      · exact ⟨-n, by simp, by simp [signOf]⟩
    rw [eq] at rounding ⊢
    exact rounding.exact (size.trans_le small) (by decide) (by decide)

theorem value_ofNat {n : ℕ} (small : n ≤ 2 ^ 53) :
    (ofNat n).isFinite = true ∧ value (ofNat n) = n := by
  obtain ⟨finite, eq⟩ := value_nearest_natCast false small
  rw [signOf, if_neg Bool.false_ne_true, one_mul] at eq
  exact ⟨finite, eq⟩

theorem ofNat_eq_rounded (n : ℕ) : ofNat n = rounded n := by
  have magnitude : |(n : ℚ)| = n / (1 : ℕ) := by rw [Nat.abs_cast, Nat.cast_one, div_one]
  rw [← nearest_eq_rounded one_pos magnitude, decide_eq_false (Nat.cast_nonneg n).not_gt, ofNat]

theorem ceil_div (n : ℕ) {d : ℕ} (pos : 0 < d) : ⌈(n : ℚ) / d⌉ = ((n + (d - 1)) / d : ℕ) := by
  have posQ : (0 : ℚ) < d := by exact_mod_cast pos
  have division := Nat.div_add_mod (n + (d - 1)) d
  have lt := Nat.mod_lt (n + (d - 1)) pos
  rw [Int.ceil_eq_iff, lt_div_iff₀ posQ, div_le_iff₀ posQ, Int.cast_natCast]
  generalize (n + (d - 1)) / d = k at *
  constructor
  · have below : k * d < n + d := by
      rw [Nat.mul_comm]
      omega
    have belowQ : (k * d : ℚ) < n + d := by exact_mod_cast below
    linarith
  · have le : n ≤ k * d := by
      rw [Nat.mul_comm]
      omega
    exact_mod_cast le

/-- Rounding a number up gives the least integer that is not below. -/
theorem value_ceil (finite : x.isFinite = true) :
    (ceil x).isFinite = true ∧ value (ceil x) = ⌈value x⌉ := by
  obtain ⟨negative, m, e, reads⟩ := isFinite_iff.mp finite
  have small : m < 2 ^ 53 := by
    have lt := (isCanonical_of_finite reads).small
    rwa [twoPow_eq] at lt
  rw [ceil, whole, reads]
  dsimp only
  split
  · next whole =>
    refine ⟨finite, ?_⟩
    obtain ⟨i, eq⟩ : ∃ i : ℤ, value x = i := by
      obtain ⟨shift, rfl⟩ := Int.eq_ofNat_of_zero_le whole
      refine ⟨(if negative then -1 else 1) * (m * 2 ^ shift), ?_⟩
      rw [value_of_finite reads, signOf]
      push_cast
      rfl
    rw [eq, Int.ceil_intCast]
  · next parted =>
    have magnitude : (m : ℚ) * 2 ^ e = m / denominator e := by
      have quotient := numerator_div_denominator m e
      rw [numerator, Int.toNat_of_nonpos (by omega), show twoPow 0 = 1 from rfl, mul_one]
        at quotient
      exact quotient.symm
    have pos := denominator_pos e
    rw [value_of_finite reads, magnitude]
    cases negative with
    | true =>
      have le := Nat.div_le_self m (denominator e)
      obtain ⟨finite, eq⟩ := value_nearest_natCast true (by omega : m / denominator e ≤ 2 ^ 53)
      refine ⟨finite, eq.trans ?_⟩
      simp only [signOf, if_true, neg_one_mul]
      rw [Int.ceil_neg, Rat.floor_natCast_div_natCast]
      push_cast
      rfl
    | false =>
      have le : (m + (denominator e - 1)) / denominator e ≤ m + 1 := by
        refine Nat.div_le_of_le_mul ?_
        rw [Nat.mul_add, Nat.mul_one]
        have := Nat.le_mul_of_pos_left m pos
        omega
      obtain ⟨finite, eq⟩ := value_nearest_natCast false (le.trans small)
      refine ⟨finite, eq.trans ?_⟩
      rw [signOf, if_neg Bool.false_ne_true, one_mul, one_mul, ceil_div m pos, Int.cast_natCast]

theorem le_floor_of_infinite {negative : Bool} (reads : read x = .infinite negative)
    (nonneg : 0 ≤ value x) : 2 ^ 64 - 1 ≤ ⌊value x⌋₊ := by
  have size : value x = beyond := by
    rw [← abs_of_nonneg nonneg, value, reads, Reading.value, abs_signOf_mul _ beyond_pos.le]
  refine Nat.le_floor ?_
  have le : (2 : ℚ) ^ 64 ≤ beyond := pow_le_pow_right₀ one_le_two (by omega)
  rw [size]
  refine le_trans ?_ le
  norm_num

/-- A count is the integer part of a number, or the greatest one of 64 bits. -/
theorem toCount_eq_floor (number : read x ≠ .nan) (nonneg : 0 ≤ value x) :
    toCount x = min (2 ^ 64 - 1) ⌊value x⌋₊ := by
  have notNegative : ¬(read x).IsNegative := by
    rw [← lt_zero_iff, lt_iff_value_lt, value_zero]
    exact fun below => absurd nonneg (not_le.mpr below.2.2)
  cases reads : read x with
  | nan => exact absurd reads number
  | infinite negative =>
    obtain rfl : negative = false := by
      rw [reads, Reading.IsNegative] at notNegative
      simpa using notNegative
    rw [Nat.min_eq_left (le_floor_of_infinite reads nonneg), toCount, toInt, reads]
    rfl
  | finite negative m e =>
    have quotient : value x = numerator m e / denominator e := by
      rw [← abs_of_nonneg nonneg, abs_value_of_finite reads, numerator_div_denominator]
    rw [toCount_of_finite reads notNegative, quotient, Nat.floor_div_eq_div]
    rfl

/-- How many whole numbers are below a number that is not negative, up to the greatest count. -/
theorem toCount_ceil (number : read x ≠ .nan) (nonneg : 0 ≤ value x) :
    toCount (ceil x) = min (2 ^ 64 - 1) ⌈value x⌉₊ := by
  cases reads : read x with
  | nan => exact absurd reads number
  | infinite negative =>
    have kept : ceil x = x := by rw [ceil, whole, reads]
    have large := le_floor_of_infinite reads nonneg
    rw [kept, toCount_eq_floor number nonneg, Nat.min_eq_left large,
      Nat.min_eq_left (large.trans (Nat.floor_le_ceil _))]
  | finite negative m e =>
    obtain ⟨finite, eq⟩ := value_ceil (isFinite_iff.mpr ⟨_, _, _, reads⟩)
    have natural : (⌈value x⌉ : ℚ) = (⌈value x⌉₊ : ℕ) := (natCast_ceil_eq_intCast_ceil nonneg).symm
    rw [natural] at eq
    rw [toCount_eq_floor (read_ne_nan_of_isFinite finite) (by rw [eq]; positivity), eq,
      Nat.floor_natCast]

end Operations

end ValueMachine.Number
