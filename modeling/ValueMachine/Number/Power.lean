/-!
# Powers of two and ten

Powers that fit a machine word are shifts; all others are computed as they are defined.

Results:
* `twoPow_eq`: `twoPow n` is the `n`-th power of two.
-/

namespace ValueMachine.Number

/-- The `n`-th power of two. -/
def twoPow (n : Nat) : Nat :=
  if n < 63 then ((1 : UInt64) <<< UInt64.ofNat n).toNat else Nat.pow 2 n

/-- The `n`-th power of ten. -/
abbrev tenPow (n : Nat) : Nat := Nat.pow 10 n

theorem twoPow_eq (n : Nat) : twoPow n = Nat.pow 2 n := by
  have small : ∀ k : Fin 63,
      ((1 : UInt64) <<< UInt64.ofNat k).toNat = Nat.pow 2 k := by decide
  rw [twoPow]
  split
  · exact small ⟨n, by assumption⟩
  · rfl

theorem twoPow_pos (n : Nat) : 0 < twoPow n := twoPow_eq n ▸ Nat.two_pow_pos n

theorem tenPow_pos (n : Nat) : 0 < tenPow n := Nat.pow_pos (by decide)

end ValueMachine.Number
