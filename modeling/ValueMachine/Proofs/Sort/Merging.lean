import Mathlib.Data.List.Perm.Basic
import Mathlib.Order.Defs.Unbundled
import ValueMachine.Sort

/-!
# What merge sort does to a list

A merge asks of two elements whether the right one goes before the left one. `Merges` and
`MergeSorts` say what can come out when each answer is one that is possible; the same question may
be answered differently every time. The sort is related to them once, for every monad.

Results:
* `sortM_yields`: the sort yields what `MergeSorts` says;
* `MergeSorts.perm`: whatever the answers, the elements are those of the list;
* `MergeSorts.pairwise`, `MergeSorts.filter_tied`: if the answers are those of a strict weak order,
  the result is sorted, and elements that are tied keep their order.
-/

namespace ValueMachine

variable {α : Type}

/-! ## What can come out -/

/-- What a merge of two lists can come to. -/
inductive Merges (possible : α → α → Bool → Prop) : List α → List α → List α → Prop
  | onlyRight (right : List α) : Merges possible [] right right
  | onlyLeft (left : List α) : Merges possible left [] left
  | takeRight {x y : α} {left right merged : List α} (answer : possible y x true)
    (rest : Merges possible (x :: left) right merged) :
    Merges possible (x :: left) (y :: right) (y :: merged)
  | takeLeft {x y : α} {left right merged : List α} (answer : possible y x false)
    (rest : Merges possible left (y :: right) merged) :
    Merges possible (x :: left) (y :: right) (x :: merged)

/-- What sorting a list can come to. -/
inductive MergeSorts (possible : α → α → Bool → Prop) : List α → List α → Prop
  | short {items : List α} (few : items.length < 2) : MergeSorts possible items items
  | halves {items left right sorted : List α} (many : 2 ≤ items.length)
    (front : MergeSorts possible (items.take (items.length / 2)) left)
    (rear : MergeSorts possible (items.drop (items.length / 2)) right)
    (merges : Merges possible left right sorted) : MergeSorts possible items sorted

/-! ## Whatever the answers -/

section Possible

variable {possible : α → α → Bool → Prop}

theorem Merges.perm {left right merged : List α} (h : Merges possible left right merged) :
    merged.Perm (left ++ right) := by
  induction h with
  | onlyRight right => exact .refl _
  | onlyLeft left => rw [List.append_nil]
  | takeRight _ _ ih => exact (ih.cons _).trans List.perm_middle.symm
  | takeLeft _ _ ih => exact ih.cons _

/-- Sorting rearranges, whatever the answers. -/
theorem MergeSorts.perm {items sorted : List α} (h : MergeSorts possible items sorted) :
    sorted.Perm items := by
  induction h with
  | short => exact .refl _
  | @halves items left right sorted _ _ _ merges ih ih' =>
    have halves := ih.append ih'
    rw [List.take_append_drop] at halves
    exact merges.perm.trans halves

end Possible

/-! ## Sorting in a monad -/

/-- A way to say what holds of the results of computations. -/
structure Modality (m : Type → Type) [Monad m] where
  yields : {β : Type} → m β → (β → Prop) → Prop
  mono {β : Type} {x : m β} {P Q : β → Prop} : yields x P → (∀ b, P b → Q b) → yields x Q
  pure {β : Type} {P : β → Prop} {b : β} : P b → yields (Pure.pure b) P
  bind {β γ : Type} {P : γ → Prop} {x : m β} {f : β → m γ} :
    yields x (fun b => yields (f b) P) → yields (x >>= f) P

section Monadic

variable {m : Type → Type} [Monad m] (modality : Modality m) {possible : α → α → Bool → Prop}
  {before : α → α → m Bool}

theorem mergeM_yields (fuel : Nat) : ∀ left right : List α,
    (∀ y ∈ right, ∀ x ∈ left, modality.yields (before y x) (possible y x)) →
    left.length + right.length ≤ fuel →
    modality.yields (mergeM before fuel left right) (Merges possible left right) := by
  induction fuel with
  | zero =>
    intro left right _ room
    obtain rfl : left = [] := List.length_eq_zero_iff.mp (by omega)
    exact modality.pure (.onlyRight right)
  | succ fuel ih =>
    rintro (_ | ⟨x, left⟩) (_ | ⟨y, right⟩) asked room
    · exact modality.pure (.onlyRight _)
    · exact modality.pure (.onlyRight _)
    · exact modality.pure (.onlyLeft _)
    · rw [mergeM]
      refine modality.bind (modality.mono (asked y (by simp) x (by simp)) ?_)
      simp only [List.length_cons] at room
      rintro (_ | _) answer
      · have rest := ih left (y :: right) (fun b hb a ha => asked b hb a (by simp [ha]))
          (by simp only [List.length_cons]; omega)
        exact modality.bind (modality.mono rest fun merged h =>
          modality.pure (.takeLeft answer h))
      · have rest := ih (x :: left) right (fun b hb a ha => asked b (by simp [hb]) a ha)
          (by simp only [List.length_cons]; omega)
        exact modality.bind (modality.mono rest fun merged h =>
          modality.pure (.takeRight answer h))

/-- The sort yields what can come out, if each question gets a possible answer. -/
theorem sortM_yields (fuel : Nat) : ∀ items : List α,
    (∀ y ∈ items, ∀ x ∈ items, modality.yields (before y x) (possible y x)) →
    items.length ≤ fuel →
    modality.yields (sortM before fuel items) (MergeSorts possible items) := by
  induction fuel with
  | zero => intro items _ room; exact modality.pure (.short (by omega))
  | succ fuel ih =>
    intro items asked room
    rw [sortM]
    split
    · next few => exact modality.pure (.short few)
    · next many =>
      have front := ih (items.take (items.length / 2))
        (fun y hy x hx => asked y (List.mem_of_mem_take hy) x (List.mem_of_mem_take hx))
        (by rw [List.length_take]; omega)
      have rear := ih (items.drop (items.length / 2))
        (fun y hy x hx => asked y (List.mem_of_mem_drop hy) x (List.mem_of_mem_drop hx))
        (by rw [List.length_drop]; omega)
      refine modality.bind (modality.mono front fun left hleft => ?_)
      refine modality.bind (modality.mono rear fun right hright => ?_)
      refine modality.mono (mergeM_yields modality items.length left right ?_ ?_)
        fun sorted merges => .halves (by omega) hleft hright merges
      · intro y hy x hx
        exact asked y (List.mem_of_mem_drop (hright.perm.subset hy))
          x (List.mem_of_mem_take (hleft.perm.subset hx))
      · rw [hleft.perm.length_eq, hright.perm.length_eq, List.length_take, List.length_drop]
        omega

end Monadic

/-! ## Strict weak orders -/

/-- The order is a strict weak one on the elements of a list. -/
abbrev IsWeaklyOrdered (before : α → α → Bool) (items : List α) : Prop :=
  IsStrictWeakOrder {a // a ∈ items} fun a b => before a b = true

/-- Neither of two elements goes before the other. -/
def tied (before : α → α → Bool) (a b : α) : Bool := !before a b && !before b a

section Ordered

variable {before : α → α → Bool} {items : List α}

namespace IsWeaklyOrdered

theorem asymm (weak : IsWeaklyOrdered before items) {a b : α} (ha : a ∈ items) (hb : b ∈ items)
    (lt : before a b = true) : before b a = false := by
  rw [← Bool.not_eq_true]
  intro gt
  exact weak.irrefl ⟨a, ha⟩ (weak.trans ⟨a, ha⟩ ⟨b, hb⟩ ⟨a, ha⟩ lt gt)

theorem tied_trans (weak : IsWeaklyOrdered before items) {a b c : α} (ha : a ∈ items)
    (hb : b ∈ items) (hc : c ∈ items) (h : tied before a b = true) (h' : tied before b c = true) :
    tied before a c = true := by
  have key := weak.incomp_trans ⟨a, ha⟩ ⟨b, hb⟩ ⟨c, hc⟩
  simp only [tied, Bool.and_eq_true, Bool.not_eq_true', Bool.not_eq_true] at *
  exact key h h'

/-- What does not go after a third element by two steps does not by one. -/
theorem trans_not (weak : IsWeaklyOrdered before items) {a b c : α} (ha : a ∈ items)
    (hb : b ∈ items) (hc : c ∈ items) (h : before b a = false) (h' : before c b = false) :
    before c a = false := by
  rw [← Bool.not_eq_true]
  intro lt
  by_cases ab : before a b = true
  · have := weak.trans ⟨c, hc⟩ ⟨a, ha⟩ ⟨b, hb⟩ lt ab
    simp [h'] at this
  by_cases bc : before b c = true
  · have := weak.trans ⟨b, hb⟩ ⟨c, hc⟩ ⟨a, ha⟩ bc lt
    simp [h] at this
  · have := weak.tied_trans ha hb hc (by simp [tied, ab, h]) (by simp [tied, bc, h'])
    simp [tied, lt] at this

theorem mono {sublist : List α} (weak : IsWeaklyOrdered before items) (sub : sublist ⊆ items) :
    IsWeaklyOrdered before sublist where
  irrefl a := weak.irrefl ⟨a, sub a.2⟩
  trans a b c := weak.trans ⟨a, sub a.2⟩ ⟨b, sub b.2⟩ ⟨c, sub c.2⟩
  incomp_trans a b c := weak.incomp_trans ⟨a, sub a.2⟩ ⟨b, sub b.2⟩ ⟨c, sub c.2⟩

end IsWeaklyOrdered

/-- No later element goes before an earlier one. -/
abbrev IsSorted (before : α → α → Bool) (items : List α) : Prop :=
  items.Pairwise fun a b => before b a = false

/-- The answers are those of an order. -/
abbrev answersOf (before : α → α → Bool) (a b : α) (answer : Bool) : Prop := answer = before a b

theorem Merges.pairwise {left right merged : List α}
    (h : Merges (answersOf before) left right merged) (weak : IsWeaklyOrdered before (left ++ right))
    (hleft : IsSorted before left) (hright : IsSorted before right) : IsSorted before merged := by
  induction h with
  | onlyRight => exact hright
  | onlyLeft => exact hleft
  | @takeRight x y left right merged answer rest ih =>
    obtain ⟨first, hright⟩ := List.pairwise_cons.mp hright
    have others := ih (weak.mono (List.Sublist.subset (by simp))) hleft hright
    refine List.pairwise_cons.mpr ⟨fun z hz => ?_, others⟩
    -- `y` goes before `x`, which is not after the rest of the left list
    have notAfter : before x y = false := weak.asymm (by simp) (by simp) answer.symm
    rcases List.mem_append.mp (rest.perm.subset hz) with hz | hz
    · rcases List.mem_cons.mp hz with rfl | hz
      · exact notAfter
      · exact weak.trans_not (by simp) (by simp) (by simp [hz]) notAfter
          ((List.pairwise_cons.mp hleft).1 z hz)
    · exact first z hz
  | @takeLeft x y left right merged answer rest ih =>
    obtain ⟨first, hleft⟩ := List.pairwise_cons.mp hleft
    have others := ih (weak.mono (List.Sublist.subset (by simp))) hleft hright
    refine List.pairwise_cons.mpr ⟨fun z hz => ?_, others⟩
    rcases List.mem_append.mp (rest.perm.subset hz) with hz | hz
    · exact first z hz
    · rcases List.mem_cons.mp hz with rfl | hz
      · exact answer.symm
      · exact weak.trans_not (by simp) (by simp) (by simp [hz]) answer.symm
          ((List.pairwise_cons.mp hright).1 z hz)

/-- The result is sorted. -/
theorem MergeSorts.pairwise {sorted : List α} (h : MergeSorts (answersOf before) items sorted)
    (weak : IsWeaklyOrdered before items) : IsSorted before sorted := by
  induction h with
  | @short items few =>
    rcases items with _ | ⟨a, _ | ⟨b, items⟩⟩
    · exact .nil
    · exact List.pairwise_singleton _ _
    · simp only [List.length_cons] at few; omega
  | @halves items left right sorted _ front rear merges ih ih' =>
    refine merges.pairwise (weak.mono fun a ha => ?_)
      (ih (weak.mono (List.take_subset _ _))) (ih' (weak.mono (List.drop_subset _ _)))
    rcases List.mem_append.mp ha with ha | ha
    · exact List.mem_of_mem_take (front.perm.subset ha)
    · exact List.mem_of_mem_drop (rear.perm.subset ha)

/-- An element that goes before all of a sorted list is tied with none of it. -/
theorem IsSorted.filter_tied_eq_nil {x y c : α} {left : List α}
    (sorted : IsSorted before (x :: left)) (lt : before y x = true) (h : tied before c y = true)
    (weak : IsWeaklyOrdered before (c :: y :: x :: left)) :
    (x :: left).filter (tied before c) = [] := by
  rw [List.filter_eq_nil_iff]
  intro z hz hcz
  have mem : z ∈ c :: y :: x :: left := by simp [List.mem_cons.mp hz]
  have notAfter : before z x = false := by
    rcases List.mem_cons.mp hz with rfl | hz
    · exact Bool.eq_false_iff.mpr (weak.irrefl ⟨z, mem⟩)
    · exact (List.pairwise_cons.mp sorted).1 z hz
  have hzc : tied before z c = true := by simpa [tied, and_comm] using hcz
  have hzy := weak.tied_trans mem (by simp) (by simp) hzc h
  simp only [tied, Bool.and_eq_true, Bool.not_eq_true'] at hzy
  have := weak.trans_not (by simp) mem (by simp) notAfter hzy.2
  simp [lt] at this

/-- Elements that are tied with a given one stand in the order of left before right. -/
theorem Merges.filter_tied {left right merged : List α}
    (h : Merges (answersOf before) left right merged) (c : α)
    (weak : IsWeaklyOrdered before (c :: (left ++ right))) (hleft : IsSorted before left) :
    merged.filter (tied before c) = left.filter (tied before c) ++ right.filter (tied before c) := by
  induction h with
  | onlyRight => simp
  | onlyLeft => simp
  | @takeRight x y left right merged answer rest ih =>
    have others := ih (weak.mono (List.Sublist.subset (by simp))) hleft
    rw [List.filter_cons, others, List.filter_cons (x := y)]
    split
    · next h =>
      have none := hleft.filter_tied_eq_nil answer.symm h (weak.mono (by
        intro z hz
        simp only [List.mem_cons, List.mem_append] at hz ⊢
        tauto))
      simp [none]
    · simp
  | @takeLeft x y left right merged answer rest ih =>
    have others := ih (weak.mono (List.Sublist.subset (by simp))) (List.pairwise_cons.mp hleft).2
    rw [List.filter_cons, others, List.filter_cons (x := x)]
    split <;> simp

/-- Elements that are tied with a given one keep their order. -/
theorem MergeSorts.filter_tied {sorted : List α} (h : MergeSorts (answersOf before) items sorted)
    (c : α) (weak : IsWeaklyOrdered before (c :: items)) :
    sorted.filter (tied before c) = items.filter (tied before c) := by
  induction h with
  | short => rfl
  | @halves items left right sorted _ front rear merges ih ih' =>
    have take := (List.take_sublist (items.length / 2) items).cons_cons c
    have drop := (List.drop_sublist (items.length / 2) items).cons_cons c
    have halves : IsWeaklyOrdered before (c :: (left ++ right)) := by
      refine weak.mono fun z hz => ?_
      rw [List.mem_cons, List.mem_append, front.perm.mem_iff, rear.perm.mem_iff,
        ← List.mem_append, List.take_append_drop, ← List.mem_cons] at hz
      exact hz
    have hleft := front.pairwise (weak.mono (List.Subset.trans (List.take_subset _ _) (by simp)))
    rw [merges.filter_tied c halves hleft, ih (weak.mono take.subset), ih' (weak.mono drop.subset),
      ← List.filter_append, List.take_append_drop]

end Ordered

end ValueMachine
