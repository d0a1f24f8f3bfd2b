import ValueMachine.Proofs.Json.Spelling
import ValueMachine.Proofs.Number.Digits
import ValueMachine.Proofs.Number.Nearest

/-!
# Integers through JSON and back

Integers of at most 16 digits are written in full, and the double nearest to what is written is the
one that was written.

Results:
* `general_of_whole`: the text of such an integer;
* `readsBack_of_isInteger`: it spells the integer, if integers are read as they are;
* `readsIntegers_value?`: the nearest doubles are.
-/

namespace ValueMachine.Number

/-! ## Writing -/

/-- A whole number, scaled to some places, has only zeros there. -/
theorem text_strip_ofScaled (k places : Nat) :
    (Decimal.ofScaled (k * tenPow places) places).strip.text = digits k := by
  have pos : 0 < tenPow places := tenPow_pos places
  have fraction : (Decimal.ofScaled (k * tenPow places) places).strip.fraction = [] := by
    rw [Decimal.strip, Decimal.ofScaled]
    dsimp only
    rw [List.reverse_eq_nil_iff, List.dropWhile_eq_nil_iff]
    intro c mem
    rw [List.mem_reverse, Nat.mul_mod_left] at mem
    split at mem
    · cases mem
    · rcases List.mem_append.mp mem with mem | mem
      · exact beq_iff_eq.mpr (List.eq_of_mem_replicate mem)
      · exact beq_iff_eq.mpr (List.mem_singleton.mp mem)
  rw [Decimal.text, fraction]
  show digits (k * tenPow places / tenPow places) = _
  rw [Nat.mul_div_cancel k pos]

section Whole

variable {mantissa k precision : Nat} {exponent : Int}

theorem digitCount_pos (pos : k ≠ 0) : 0 < digitCount k :=
  List.length_pos_of_ne_nil (significantDigits_ne_nil pos)

theorem floorLog10_of_whole {den : Nat} (pos : k ≠ 0) (denPos : 0 < den) :
    floorLog10 (k * den) den = (digitCount k : Int) - 1 := by
  rw [floorLog10, if_pos (Nat.le_mul_of_pos_left den (Nat.pos_of_ne_zero pos)),
    Nat.mul_div_cancel k denPos]

/-- A whole number of no more digits than are asked for keeps them all. -/
theorem significant_of_whole {den : Nat} (pos : k ≠ 0) (denPos : 0 < den)
    (few : digitCount k ≤ precision) :
    significant (k * den) den precision =
      ⟨k * tenPow (precision - digitCount k), (digitCount k : Int) - 1⟩ := by
  have some := digitCount_pos pos
  have shift : (precision : Int) - 1 - ((digitCount k : Int) - 1) =
      ((precision - digitCount k : Nat) : Int) := by omega
  have rounded : roundDiv (k * den * tenPow (precision - digitCount k)) (den * tenPow 0) =
      k * tenPow (precision - digitCount k) := by
    have eq : k * den * tenPow (precision - digitCount k) =
        k * tenPow (precision - digitCount k) * (den * tenPow 0) := by
      show _ = _ * (den * 1)
      ring
    rw [eq, roundDiv_mul_self]
    exact Nat.mul_pos denPos (tenPow_pos 0)
  have less : k * tenPow (precision - digitCount k) < tenPow precision := by
    have lt : k < tenPow (digitCount k) := (digitCount_le_iff k _).mp (le_refl _)
    calc k * tenPow (precision - digitCount k)
        < tenPow (digitCount k) * tenPow (precision - digitCount k) :=
          Nat.mul_lt_mul_of_pos_right lt (tenPow_pos _)
      _ = tenPow precision := by
          show 10 ^ _ * 10 ^ _ = 10 ^ _
          rw [← Nat.pow_add, Nat.add_sub_cancel' few]
  have unshifted : (-((precision - digitCount k : Nat) : Int)).toNat = 0 := by omega
  rw [significant, floorLog10_of_whole pos denPos, shift, Int.toNat_natCast, unshifted, rounded,
    if_neg less.ne]

theorem generalMagnitude_of_whole (pos : k ≠ 0)
    (value : numerator mantissa exponent = k * denominator exponent)
    (few : digitCount k ≤ precision) : generalMagnitude mantissa exponent precision = digits k := by
  have some := digitCount_pos pos
  have denPos := denominator_pos exponent
  rw [generalMagnitude, value]
  dsimp only
  rw [significant_of_whole pos denPos few]
  dsimp only
  rw [if_neg (by omega), scaled, Nat.mul_right_comm, roundDiv_mul_self _ denPos, text_strip_ofScaled]

end Whole

/-- A whole number of at most 16 digits is written in full. -/
theorem general_of_whole {x : Float} {negative : Bool} {mantissa k : Nat} {exponent : Int}
    (h : read x = .finite negative mantissa exponent)
    (value : numerator mantissa exponent = k * denominator exponent) (lt : k < tenPow 16) :
    general x standardPrecision = signText negative ++ digits k := by
  have few : digitCount k ≤ 16 := (digitCount_le_iff k 16).mpr lt
  have zero : mantissa = 0 ↔ k = 0 := by
    have left := twoPow_pos exponent.toNat
    have right := denominator_pos exponent
    constructor
    · rintro rfl
      rw [numerator, Nat.zero_mul] at value
      exact (Nat.mul_eq_zero.mp value.symm).resolve_right right.ne'
    · rintro rfl
      rw [Nat.zero_mul, numerator] at value
      exact (Nat.mul_eq_zero.mp value).resolve_right left.ne'
  rw [general, h]
  dsimp only
  by_cases none : mantissa = 0
  · rw [if_pos none, zero.mp none]
    rfl
  · rw [if_neg none, generalMagnitude_of_whole (mt zero.mpr none) value]
    exact few

/-! ## Reading -/

/-- The digits of a whole number give its double. -/
theorem ofDecimal_digits (negative : Bool) {k : Nat} (lt : k < tenPow 16) :
    ofDecimal negative (digits k) 0 = nearest negative k 1 := by
  have few : digitCount k ≤ 16 := (digitCount_le_iff k 16).mpr lt
  rw [ofDecimal, digits]
  by_cases zero : k = 0
  · subst zero
    rfl
  · have whole : (significantDigits k).dropWhile (· == '0') = significantDigits k := by
      obtain ⟨c, rest, eq⟩ := List.exists_cons_of_ne_nil (significantDigits_ne_nil zero)
      have notZero := head?_significantDigits k
      rw [eq] at notZero ⊢
      rw [List.dropWhile_cons_of_neg]
      simpa using notZero
    have notEmpty : ¬((significantDigits k).isEmpty = true) := by
      rw [List.isEmpty_iff]
      exact significantDigits_ne_nil zero
    rw [if_neg zero, whole, ← digitCount, if_neg, if_neg, digitsValue_eq, plainValue_significantDigits]
    · show nearest negative (k * 1) 1 = _
      rw [Nat.mul_one]
    · rw [exponentReach]; omega
    · rw [exponentReach]
      exact fun h => h.elim notEmpty (by omega)

end ValueMachine.Number

namespace ValueMachine.Json

open Number (signText digits general read numerator denominator)

/-- An integer of a limited absolute value. -/
def IsInteger (bound : Nat) (x : Float) : Prop :=
  ∃ negative mantissa exponent k, read x = .finite negative mantissa exponent ∧
    numerator mantissa exponent = k * denominator exponent ∧ k ≤ bound

/-- What is written of an integer up to the bound, without a point or an exponent, stands for it. -/
def ReadsIntegers (number? : NumberText → Option Float) (bound : Nat) : Prop :=
  ∀ ⦃x : Float⦄ ⦃negative : Bool⦄ ⦃mantissa k : Nat⦄ ⦃exponent : Int⦄,
    read x = .finite negative mantissa exponent →
    numerator mantissa exponent = k * denominator exponent → k ≤ bound →
    number? ⟨negative, digits k, none, none⟩ = some x

/-- Integers that are of at most 16 digits are spelt by their texts. -/
theorem readsBack_of_isInteger {number? : NumberText → Option Float} {bound : Nat} {x : Float}
    (exact : ReadsIntegers number? bound) (few : bound < Number.tenPow 16)
    (is : IsInteger bound x) : ReadsBack number? x := by
  obtain ⟨negative, mantissa, exponent, k, reading, value, le⟩ := is
  have spells : SpellsNumber ⟨negative, digits k, none, none⟩
      (signText negative ++ digits k ++ [] ++ []) := .intro (isWhole_digits k) .none .none
  rw [List.append_nil, List.append_nil] at spells
  rw [ReadsBack, Number.general_of_whole reading value (le.trans_lt few)]
  exact .number spells (exact reading value le)

/-- The nearest double to an integer of at most 53 bits is the integer. -/
theorem readsIntegers_value? :
    ReadsIntegers (NumberText.value? .strict) (Number.twoPow 53) := by
  intro x negative mantissa k exponent reading value le
  have lt : k < Number.tenPow 16 := le.trans_lt (by decide)
  have finite : x.isInf = false := by
    rw [← Bool.not_eq_true, Number.isInf_iff]
    rintro ⟨_, infinite⟩
    rw [reading] at infinite
    cases infinite
  have own : (NumberText.mk negative (digits k) none none).value = x := by
    rw [NumberText.value]
    show Number.ofDecimal negative (digits k ++ []) (0 - 0) = x
    rw [List.append_nil, Int.sub_zero, Number.ofDecimal_digits negative lt,
      Number.nearest_of_whole reading value]
  rw [NumberText.value?, own, finite]
  rfl

end ValueMachine.Json
