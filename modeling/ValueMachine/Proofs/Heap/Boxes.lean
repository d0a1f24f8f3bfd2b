import Mathlib.Data.Fintype.Pigeonhole
import Mathlib.Logic.Relation
import ValueMachine.Proofs.Heap.Graph

/-!
# Following boxes

The content of a value is found by following at most one box more than there are cells. That is
enough unless boxes hold each other in a circle.

Results:
* `payload_content_ne_box`: the content of a value is no box;
* `content_of_ne_box`, `content_of_box`: which value is the content.
-/

namespace ValueMachine.Heap

variable {h : Heap}

/-- The first handle is that of a box which holds the second. -/
def Boxes (h : Heap) (u w : Value) : Prop := h.payload u = .box w

/-- In the graph of a value no boxes hold each other in a circle. -/
def HasNoBoxCycle (h : Heap) (v : Value) : Prop :=
  ∀ u, h.Reaches Payload.parts v u → ¬Relation.TransGen h.Boxes u u

theorem HasNoBoxCycle.of_part {v w : Value} (acyclic : h.HasNoBoxCycle v)
    (mem : w ∈ (h.payload v).parts) : h.HasNoBoxCycle w :=
  fun u reached => acyclic u (reached.of_edge mem)

/-- Boxes that hold no boxes do not hold each other in a circle. -/
theorem hasNoBoxCycle_of_flat {v : Value} (values : List Value) (mem : v ∈ values)
    (closed : ∀ u ∈ values, ∀ w ∈ (h.payload u).parts, w ∈ values)
    (flat : ∀ u ∈ values, (h.payload u).isBox = true →
      ∀ w ∈ (h.payload u).parts, (h.payload w).isBox = false) : h.HasNoBoxCycle v := by
  intro u reached circle
  have inside : u ∈ values := reached.mem_of_closed mem closed
  obtain ⟨w, box, others⟩ := Relation.TransGen.head'_iff.mp circle
  have notBox : (h.payload w).isBox = false := by
    rw [Boxes] at box
    exact flat u inside (by rw [box]; rfl) w (by rw [box]; exact List.mem_singleton_self w)
  -- the circle would go on from the content
  have isBox : (h.payload w).isBox = true := by
    rcases others.cases_head with rfl | ⟨x, box', _⟩
    · rw [show h.payload w = .box w from box]; rfl
    · rw [show h.payload w = .box x from box']; rfl
  rw [notBox] at isBox
  cases isBox

theorem unbox_of_box {u w : Value} (box : h.payload u = .box w) : h.unbox u = w := by
  rw [unbox, box]

theorem unbox_of_ne_box {u : Value} (ne : ∀ w, h.payload u ≠ .box w) : h.unbox u = u := by
  rw [unbox]
  split
  · next w box => exact absurd box (ne w)
  · rfl

/-- Following boxes is opening one after the other. -/
theorem follow_eq_iterate (fuel : Nat) (v : Value) : h.follow fuel v = h.unbox^[fuel] v := by
  have stays : ∀ {u}, (∀ w, h.payload u ≠ .box w) → ∀ fuel, h.follow fuel u = u := by
    intro u ne fuel
    cases fuel with
    | zero => rfl
    | succ fuel =>
      rw [follow]
      split
      · next w box => exact absurd box (ne w)
      · rfl
  induction fuel generalizing v with
  | zero => rfl
  | succ fuel ih =>
    rw [Function.iterate_succ_apply, ← ih]
    by_cases box : ∃ w, h.payload v = .box w
    · obtain ⟨w, box⟩ := box
      rw [follow, box, unbox_of_box box]
    · have ne : ∀ w, h.payload v ≠ .box w := fun w eq => box ⟨w, eq⟩
      rw [unbox_of_ne_box ne, stays ne, stays ne]

/-- A box is reached through boxes only. -/
theorem boxes_iterate {v w : Value} {n : Nat} (last : h.payload (h.unbox^[n] v) = .box w) :
    ∀ k ≤ n, h.Boxes (h.unbox^[k] v) (h.unbox^[k + 1] v) := by
  induction n generalizing w with
  | zero =>
    intro k le
    obtain rfl : k = 0 := by omega
    rw [Boxes, last]
    exact congrArg Payload.box (unbox_of_box last).symm
  | succ n ih =>
    have previous : ∃ w, h.payload (h.unbox^[n] v) = .box w := by
      by_contra none
      have ne : ∀ w, h.payload (h.unbox^[n] v) ≠ .box w := fun w eq => none ⟨w, eq⟩
      rw [Function.iterate_succ_apply', unbox_of_ne_box ne] at last
      exact ne w last
    intro k le
    rcases Nat.lt_or_ge n k with lt | le'
    · obtain rfl : k = n + 1 := by omega
      rw [Boxes, last, Function.iterate_succ_apply' h.unbox (n + 1), unbox_of_box last]
    · obtain ⟨w', previous⟩ := previous
      exact ih previous k le'

theorem reaches_iterate {v : Value} {n : Nat}
    (boxes : ∀ k < n, h.Boxes (h.unbox^[k] v) (h.unbox^[k + 1] v)) :
    h.Reaches Payload.parts v (h.unbox^[n] v) := by
  induction n with
  | zero => exact .root
  | succ n ih =>
    have box : h.payload (h.unbox^[n] v) = .box (h.unbox^[n + 1] v) := boxes n (Nat.lt_succ_self n)
    refine (ih fun k lt => boxes k (by omega)).edge ?_
    rw [box]
    exact List.mem_singleton_self _

theorem transGen_iterate {v : Value} {n i j : Nat} (lt : i < j) (le : j ≤ n)
    (boxes : ∀ k < n, h.Boxes (h.unbox^[k] v) (h.unbox^[k + 1] v)) :
    Relation.TransGen h.Boxes (h.unbox^[i] v) (h.unbox^[j] v) := by
  induction j with
  | zero => cases lt
  | succ j ih =>
    have last := boxes j le
    rcases Nat.lt_or_ge i j with lt' | ge
    · exact (ih lt' (Nat.le_of_succ_le le)).tail last
    · obtain rfl : i = j := by omega
      exact .single last

/-- The content of a value is no box: among one box more than there are cells, two are the same. -/
theorem payload_content_ne_box {v : Value} (acyclic : h.HasNoBoxCycle v) (w : Value) :
    h.payload (h.content v) ≠ .box w := by
  rw [content, follow_eq_iterate]
  intro last
  have boxes : ∀ k < h.size + 1, h.Boxes (h.unbox^[k] v) (h.unbox^[k + 1] v) :=
    fun k lt => boxes_iterate last k (Nat.le_of_lt lt)
  have address : ∀ k : Fin (h.size + 1), ∃ a : Fin h.size, h.unbox^[k] v = .cell a := by
    intro k
    have box := boxes k k.isLt
    cases eq : h.unbox^[k] v with
    | cell a =>
      rcases Nat.lt_or_ge a h.size with lt | ge
      · exact ⟨⟨a, lt⟩, rfl⟩
      · rw [eq, Boxes, payload_of_size_le ge] at box; cases box
    | _ => rw [eq] at box; cases box
  choose f same using address
  obtain ⟨i, j, ne, eq⟩ := Fintype.exists_ne_map_eq_of_card_lt f (by simp)
  have meet : h.unbox^[i] v = h.unbox^[j] v := by rw [same i, same j, eq]
  have reached : ∀ k : Fin (h.size + 1), h.Reaches Payload.parts v (h.unbox^[k] v) :=
    fun k => reaches_iterate fun l lt => boxes l (by omega)
  rcases Nat.lt_or_gt_of_ne (Fin.val_ne_of_ne ne) with lt | lt
  · have circle := transGen_iterate lt (Nat.le_of_lt j.isLt) boxes
    rw [← meet] at circle
    exact acyclic _ (reached i) circle
  · have circle := transGen_iterate lt (Nat.le_of_lt i.isLt) boxes
    rw [meet] at circle
    exact acyclic _ (reached j) circle

theorem content_of_ne_box {v : Value} (ne : ∀ w, h.payload v ≠ .box w) : h.content v = v := by
  rw [content, follow_eq_iterate]
  exact Function.iterate_fixed (unbox_of_ne_box ne) _

theorem content_of_not_isBox {v : Value} (no : (h.payload v).isBox = false) : h.content v = v := by
  refine content_of_ne_box fun w box => ?_
  rw [box] at no
  cases no

theorem content_of_isContainer {v : Value} (is : (h.payload v).isContainer = true) :
    h.content v = v := by
  refine content_of_ne_box fun w box => ?_
  rw [box] at is; cases is

/-- A box has the content of what it holds. -/
theorem content_of_box {v w : Value} (acyclic : h.HasNoBoxCycle v) (box : h.payload v = .box w) :
    h.content v = h.content w := by
  have last := unbox_of_ne_box (payload_content_ne_box acyclic)
  rw [content, follow_eq_iterate, Function.iterate_succ_apply, unbox_of_box box] at last ⊢
  rw [content, follow_eq_iterate, Function.iterate_succ_apply', last]

end ValueMachine.Heap
