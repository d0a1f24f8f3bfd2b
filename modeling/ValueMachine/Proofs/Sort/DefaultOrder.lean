import Mathlib.Data.Prod.Lex
import ValueMachine.Proofs.Heap.Boxes
import ValueMachine.Proofs.Number.TotalOrder
import ValueMachine.Proofs.Sort.Merging
import ValueMachine.Proofs.Text.ByteOrder

/-!
# The default order of values

Without boxes, an element goes before another one if its place is the lower one: by kind, then
numbers by their total order and texts by their characters.

Results:
* `Heap.isWeaklyOrdered_defaultBefore`: the default order is a strict weak one;
* `IsStableSort.isInDefaultOrder`: a sorted list has the numbers first, then the texts, then all
  else by kind.
-/

namespace ValueMachine

/-! ## Lists by groups -/

section Groups

variable {α : Type} {key : α → Nat}

/-- A sorted list begins with the elements that have the least key. -/
theorem eq_filter_append_of_pairwise {l : List α} (sorted : l.Pairwise fun a b => key a ≤ key b)
    {least : Nat} (le : ∀ a ∈ l, least ≤ key a) :
    l = l.filter (key · = least) ++ l.filter (key · ≠ least) := by
  induction l with
  | nil => rfl
  | cons a l ih =>
    obtain ⟨first, sorted⟩ := List.pairwise_cons.mp sorted
    by_cases eq : key a = least
    · have others := ih sorted fun b hb => le b (by simp [hb])
      rw [List.filter_cons_of_pos (by simp [eq]), List.filter_cons_of_neg (by simp [eq]),
        List.cons_append, ← others]
    · have greater : ∀ b ∈ a :: l, key b ≠ least := by
        intro b hb
        have := le a (by simp)
        rcases List.mem_cons.mp hb with rfl | hb
        · exact eq
        · have := first b hb
          omega
      rw [List.filter_eq_nil_iff.mpr (by simpa using greater),
        List.filter_eq_self.mpr (by simpa using greater), List.nil_append]

/-- A sorted list consists of one group for each key. -/
theorem eq_flatMap_filter_of_pairwise {keys : List Nat} (ascending : keys.Pairwise (· < ·)) :
    ∀ {l : List α}, l.Pairwise (fun a b => key a ≤ key b) → (∀ a ∈ l, key a ∈ keys) →
      l = keys.flatMap fun k => l.filter (key · = k) := by
  induction keys with
  | nil =>
    intro l _ mem
    rw [List.flatMap_nil, List.eq_nil_iff_forall_not_mem]
    exact fun a ha => absurd (mem a ha) (List.not_mem_nil)
  | cons k keys ih =>
    intro l sorted mem
    obtain ⟨first, ascending⟩ := List.pairwise_cons.mp ascending
    have le : ∀ a ∈ l, k ≤ key a := fun a ha => by
      rcases List.mem_cons.mp (mem a ha) with eq | later
      · exact eq.ge
      · exact (first _ later).le
    have rest := ih ascending (sorted.sublist (List.filter_sublist (p := (key · ≠ k))))
      fun a ha => by
        have ha' := List.mem_filter.mp ha
        exact (List.mem_cons.mp (mem a ha'.1)).resolve_left (by simpa using ha'.2)
    rw [List.flatMap_cons]
    conv_lhs => rw [eq_filter_append_of_pairwise sorted le, rest]
    congr 1
    refine List.flatMap_congr fun k' hk' => ?_
    rw [List.filter_filter]
    refine List.filter_congr fun a _ => ?_
    have := first k' hk'
    by_cases eq : key a = k' <;> simp [eq]
    omega

end Groups

/-! ## Places -/

theorem Kind.eq_of_tag_eq {k k' : Kind} (eq : k.tag = k'.tag) : k = k' := by
  have same := k.ofTag?_tag
  rw [eq, k'.ofTag?_tag] at same
  exact (Option.some.inj same).symm

namespace Heap

variable (h : Heap)

/-- No element is a box. -/
def HasNoBox (items : List Value) : Prop := ∀ v ∈ items, (h.payload v).isBox = false

/-- The place of a value that is no box. -/
def place (v : Value) : ℕ ×ₗ ℤ ×ₗ String :=
  match h.payload v with
  | .number x => toLex (Kind.number.tag, toLex (h.totalKey v x, ""))
  | .text _ content => toLex (Kind.string.tag, toLex (0, content))
  | p => toLex (p.ownKind.tag, toLex (0, ""))

variable {h}

theorem kind_of_not_box {v : Value} (no : (h.payload v).isBox = false) :
    h.kind v = (h.payload v).ownKind := by
  rw [kind, contentPayload, content_of_not_isBox no]

theorem place_fst {v : Value} (no : (h.payload v).isBox = false) :
    (ofLex (h.place v)).1 = (h.kind v).tag := by
  rw [place, kind_of_not_box no]
  cases h.payload v <;> rfl

theorem place_eq {v : Value} (no : (h.payload v).isBox = false) (number : h.kind v ≠ .number)
    (text : h.kind v ≠ .string) : h.place v = toLex ((h.kind v).tag, toLex (0, "")) := by
  rw [kind_of_not_box no] at number text ⊢
  rw [place]
  cases eq : h.payload v <;> simp_all [Payload.ownKind]

/-- Apart from numbers and texts, all values of a kind have one place. -/
theorem place_eq_iff {u v : Value} (hu : (h.payload u).isBox = false)
    (hv : (h.payload v).isBox = false) (number : h.kind v ≠ .number) (text : h.kind v ≠ .string) :
    h.place u = h.place v ↔ h.kind u = h.kind v := by
  refine ⟨fun eq => Kind.eq_of_tag_eq ?_, fun eq => ?_⟩
  · rw [← place_fst hu, ← place_fst hv, eq]
  · rw [place_eq hu (eq ▸ number) (eq ▸ text), place_eq hv number text, eq]

/-- The default order is that of places. -/
theorem defaultBefore_eq {a b : Value} (ha : (h.payload a).isBox = false)
    (hb : (h.payload b).isBox = false) :
    h.defaultBefore a b = decide (h.place a < h.place b) := by
  rw [defaultBefore, place, place, kind_of_not_box ha, kind_of_not_box hb]
  cases h.payload a <;> cases h.payload b <;>
    simp [Prod.Lex.toLex_lt_toLex, Payload.ownKind, Kind.tag]

/-- A NaN with a minus goes before minus infinity, one without a minus behind infinity. -/
example :
    let minus : Number.NaN := { Number.NaN.quiet with negative := true }
    let h : Heap :=
      { cells := #[.ofPayload (.number Number.nan), .ofPayload (.number Number.nan),
          .ofPayload (.number (Number.infinity true)), .ofPayload (.number (Number.infinity false))]
        outside := { Outside.standard with nan := fun v => if v = .cell 0 then minus else .quiet } }
    h.defaultBefore (.cell 0) (.cell 2) = true ∧ h.defaultBefore (.cell 3) (.cell 1) = true := by
  decide +kernel

/-- The default order is a strict weak one. -/
theorem isWeaklyOrdered_defaultBefore {items : List Value} (noBox : h.HasNoBox items) :
    IsWeaklyOrdered h.defaultBefore items := by
  have before (a b : {v // v ∈ items}) :
      h.defaultBefore a b = true ↔ h.place a < h.place b := by
    rw [defaultBefore_eq (noBox a a.2) (noBox b b.2), decide_eq_true_eq]
  refine { irrefl := fun a => ?_, trans := fun a b c => ?_, incomp_trans := fun a b c => ?_ }
  · rw [before]
    exact lt_irrefl _
  · rw [before, before, before]
    exact lt_trans
  · simp only [before, not_lt]
    exact fun h h' => ⟨h'.1.trans h.1, h.2.trans h'.2⟩

end Heap

/-! ## Sorted lists -/

/-- A list is a stable sort of another one: the same elements in order, and those that are tied in
the order of the other list. -/
structure IsStableSort {α : Type} (before : α → α → Bool) (items sorted : List α) : Prop where
  perm : sorted.Perm items
  pairwise : IsSorted before sorted
  stable : ∀ c ∈ items, sorted.filter (tied before c) = items.filter (tied before c)

/-- The numbers from low to high, with each NaN at its own place, the texts from low to high by their
bytes, then the groups of all other kinds, each as it is in the given list. -/
structure IsInDefaultOrder (h : Heap) (items sorted : List Value) (numbers texts : List Value) :
    Prop where
  groups : sorted = numbers ++ texts ++
    [Kind.array, .object, .bool, .null, .undefined, .function].flatMap fun kind =>
      items.filter (h.kind · = kind)
  numbers_perm : numbers.Perm (items.filter (h.kind · = .number))
  texts_perm : texts.Perm (items.filter (h.kind · = .string))
  numbers_pairwise : numbers.Pairwise fun a b => ∀ x y, h.payload a = .number x →
    h.payload b = .number y →
      (Number.place x (h.outside.nan a)).TotalLE (Number.place y (h.outside.nan b))
  texts_pairwise : texts.Pairwise fun a b => ∀ isStatic isStatic' x y,
    h.payload a = .text isStatic x → h.payload b = .text isStatic' y →
      Text.Utf8.encode x ≤ Text.Utf8.encode y

namespace IsStableSort

variable {h : Heap} {items sorted : List Value}

/-- Kinds ascend. -/
theorem pairwise_tag (sort : IsStableSort h.defaultBefore items sorted) (noBox : h.HasNoBox items) :
    sorted.Pairwise fun a b => (h.kind a).tag ≤ (h.kind b).tag := by
  refine sort.pairwise.imp_of_mem fun {a b} ha hb notBefore => ?_
  have ha := noBox a (sort.perm.subset ha)
  have hb := noBox b (sort.perm.subset hb)
  rw [Heap.defaultBefore_eq hb ha, decide_eq_false_iff_not, not_lt, Prod.Lex.le_iff,
    Heap.place_fst ha, Heap.place_fst hb] at notBefore
  rcases notBefore with lt | ⟨eq, _⟩
  · exact lt.le
  · exact eq.le

/-- Values that are neither numbers nor texts keep their order within a kind. -/
theorem filter_kind (sort : IsStableSort h.defaultBefore items sorted) (noBox : h.HasNoBox items)
    {kind : Kind} (number : kind ≠ .number) (text : kind ≠ .string) :
    sorted.filter (h.kind · = kind) = items.filter (h.kind · = kind) := by
  by_cases some : ∃ c ∈ items, h.kind c = kind
  · obtain ⟨c, hc, rfl⟩ := some
    have same : ∀ v ∈ items, tied h.defaultBefore c v = decide (h.kind v = h.kind c) := by
      intro v hv
      have hc := noBox c hc
      have hv := noBox v hv
      rw [tied, Heap.defaultBefore_eq hc hv, Heap.defaultBefore_eq hv hc, Bool.eq_iff_iff]
      simp only [Bool.and_eq_true, Bool.not_eq_true', decide_eq_false_iff_not, not_lt,
        decide_eq_true_eq]
      rw [← le_antisymm_iff, Heap.place_eq_iff hv hc number text]
    rw [← List.filter_congr same, ← sort.stable c hc]
    exact List.filter_congr fun v hv => (same v (sort.perm.subset hv)).symm
  · have none : ∀ v ∈ items, ¬decide (h.kind v = kind) = true := by
      intro v hv eq
      exact some ⟨v, hv, of_decide_eq_true eq⟩
    rw [List.filter_eq_nil_iff.mpr none,
      List.filter_eq_nil_iff.mpr fun v hv => none v (sort.perm.subset hv)]

/-- A stable sort by the default order has the numbers first, then the texts, then all else. -/
theorem isInDefaultOrder (sort : IsStableSort h.defaultBefore items sorted)
    (noBox : h.HasNoBox items) :
    IsInDefaultOrder h items sorted (sorted.filter (h.kind · = .number))
      (sorted.filter (h.kind · = .string)) := by
  have ascending : (Kind.all.map Kind.tag).Pairwise (· < ·) := by decide
  have groups := eq_flatMap_filter_of_pairwise ascending (sort.pairwise_tag noBox)
    fun v _ => List.mem_map_of_mem (by cases h.kind v <;> decide)
  refine ⟨?_, sort.perm.filter _, sort.perm.filter _, ?_, ?_⟩
  · have others (k : Kind) : (sorted.filter fun v => (h.kind v).tag = k.tag) =
        sorted.filter (h.kind · = k) :=
      List.filter_congr fun v _ => decide_eq_decide.mpr ⟨Kind.eq_of_tag_eq, congrArg _⟩
    rw [List.flatMap_map] at groups
    simp only [others] at groups
    refine groups.trans ?_
    rw [Kind.all, List.flatMap_cons, List.flatMap_cons, ← List.append_assoc]
    congr 1
    refine List.flatMap_congr fun k hk => sort.filter_kind noBox ?_ ?_ <;> rintro rfl <;> simp at hk
  · refine (sort.pairwise.filter _).imp fun {a b} notBefore x y hx hy => ?_
    rw [Heap.defaultBefore, hx, hy, decide_eq_false_iff_not, not_lt] at notBefore
    exact (Number.totalKey_le_iff x y _ _).mp notBefore
  · refine (sort.pairwise.filter _).imp fun {a b} notBefore s s' x y hx hy => ?_
    rw [Heap.defaultBefore, hx, hy, decide_eq_false_iff_not,
      ← Text.Utf8.encode_lt_encode_iff] at notBefore
    exact notBefore

end IsStableSort

end ValueMachine
