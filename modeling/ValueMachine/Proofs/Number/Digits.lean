import Mathlib.Data.Nat.Digits.Lemmas
import ValueMachine.Number.Decimal

/-!
# Decimal texts of natural numbers

Results:
* `significantDigits_eq`: the digits are those of the number in base ten;
* `plainValue_digits`: reading them gives the number;
* `isDigit_of_mem_digits`, `digits_of_head?`: they are digits, without a needless zero in front.
-/

namespace ValueMachine.Number

/-- The character of a digit. -/
def digitChar (d : Nat) : Char := Char.ofNat ('0'.toNat + d)

theorem isDigit_digitChar {d : Nat} (lt : d < 10) : (digitChar d).isDigit = true := by
  have each : ∀ d : Fin 10, (digitChar d).isDigit = true := by decide
  exact each ⟨d, lt⟩

theorem digitChar_ne_zero {d : Nat} (lt : d < 10) (pos : d ≠ 0) : digitChar d ≠ '0' := by
  have each : ∀ d : Fin 10, d.val ≠ 0 → digitChar d ≠ '0' := by decide
  exact each ⟨d, lt⟩ pos

theorem withDigit_digitChar (n : Nat) {d : Nat} (lt : d < 10) :
    withDigit n (digitChar d) = 10 * n + d := by
  have each : ∀ d : Fin 10, (digitChar d).toNat - '0'.toNat = d.val := by decide
  rw [withDigit, each ⟨d, lt⟩]

theorem digitsBefore_eq (fuel : Nat) : ∀ (n : Nat) (tail : List Char), n < 2 ^ fuel →
    digitsBefore fuel n tail = ((Nat.digits 10 n).map digitChar).reverse ++ tail := by
  induction fuel with
  | zero =>
    intro n tail lt
    obtain rfl : n = 0 := by omega
    rw [digitsBefore, Nat.digits_zero, List.map_nil, List.reverse_nil, List.nil_append]
  | succ fuel ih =>
    intro n tail lt
    rw [digitsBefore]
    split
    · next zero => rw [zero, Nat.digits_zero, List.map_nil, List.reverse_nil, List.nil_append]
    · next pos =>
      have less : n / 10 < 2 ^ fuel := by omega
      rw [ih _ _ less, Nat.digits_eq_cons_digits_div (by omega) pos, List.map_cons,
        List.reverse_cons, List.append_assoc]
      rfl

/-- The digits of a number in base ten, the highest one first. -/
theorem significantDigits_eq (n : Nat) :
    significantDigits n = ((Nat.digits 10 n).map digitChar).reverse := by
  rw [significantDigits, digitsBefore_eq _ _ _ Nat.lt_log2_self, List.append_nil]

theorem isDigit_of_mem_significantDigits {n : Nat} {c : Char} (mem : c ∈ significantDigits n) :
    c.isDigit = true := by
  rw [significantDigits_eq, List.mem_reverse, List.mem_map] at mem
  obtain ⟨d, mem, rfl⟩ := mem
  exact isDigit_digitChar (Nat.digits_lt_base (by omega) mem)

theorem plainValue_map_digitChar {ds : List Nat} (lt : ∀ d ∈ ds, d < 10) :
    plainValue (ds.map digitChar).reverse = Nat.ofDigits 10 ds := by
  induction ds with
  | nil => rfl
  | cons d ds ih =>
    have first := lt d (by simp)
    have last : plainValue [digitChar d] = d := by
      rw [plainValue, List.foldl_cons, List.foldl_nil, withDigit_digitChar 0 first]
      omega
    rw [List.map_cons, List.reverse_cons, plainValue_append, ih fun e he => lt e (by simp [he]),
      last, Nat.ofDigits_cons]
    simp [tenPow, Nat.mul_comm, Nat.add_comm]

theorem plainValue_significantDigits (n : Nat) : plainValue (significantDigits n) = n := by
  rw [significantDigits_eq, plainValue_map_digitChar fun d => Nat.digits_lt_base (by omega),
    Nat.ofDigits_digits]

theorem head?_significantDigits (n : Nat) : (significantDigits n).head? ≠ some '0' := by
  rw [significantDigits_eq, List.head?_reverse, List.getLast?_map]
  intro eq
  obtain ⟨d, last, zero⟩ := Option.map_eq_some_iff.mp eq
  obtain ⟨ne, rfl⟩ := List.mem_getLast?_eq_getLast last
  exact digitChar_ne_zero (Nat.digits_lt_base (by omega) (List.getLast_mem ne))
    (Nat.getLast_digit_ne_zero 10 (Nat.digits_ne_nil_iff_ne_zero.mp ne)) zero

theorem significantDigits_ne_nil {n : Nat} (pos : n ≠ 0) : significantDigits n ≠ [] := by
  rw [significantDigits_eq, ne_eq, List.reverse_eq_nil_iff, List.map_eq_nil_iff]
  exact Nat.digits_ne_nil_iff_ne_zero.mpr pos

/-! ## Texts -/

/-- Reading the digits of a number gives the number. -/
theorem plainValue_digits (n : Nat) : plainValue (digits n) = n := by
  rw [digits]
  split
  · next zero => rw [zero]; rfl
  · exact plainValue_significantDigits n

theorem isDigit_of_mem_digits {n : Nat} {c : Char} (mem : c ∈ digits n) : c.isDigit = true := by
  rw [digits] at mem
  split at mem
  · rw [List.mem_singleton.mp mem]; rfl
  · exact isDigit_of_mem_significantDigits mem

theorem digits_ne_nil (n : Nat) : digits n ≠ [] := by
  rw [digits]
  split
  · exact List.cons_ne_nil _ _
  · next pos => exact significantDigits_ne_nil pos

/-- A zero in front is the only digit. -/
theorem digits_of_head? {n : Nat} (zero : (digits n).head? = some '0') : digits n = ['0'] := by
  rw [digits] at zero ⊢
  split
  · rfl
  · next pos =>
    rw [if_neg pos] at zero
    exact absurd zero (head?_significantDigits n)

theorem digitCount_le_iff (n count : Nat) : digitCount n ≤ count ↔ n < 10 ^ count := by
  rw [digitCount, significantDigits_eq, List.length_reverse, List.length_map,
    Nat.digits_length_le_iff (by omega)]

end ValueMachine.Number
