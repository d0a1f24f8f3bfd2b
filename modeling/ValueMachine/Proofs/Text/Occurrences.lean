import Mathlib.Data.Nat.Find
import ValueMachine.Text.Search

/-!
# Occurrences of a pattern

Searching answers the first place at which a pattern occurs, and replacing puts a text there.

Results:
* `find?_eq_some_iff`, `find?_eq_none_iff`: what searching finds;
* `contains_iff`: when a text contains a pattern;
* `replaceFirst_of_isFirst`, `replaceFirst_of_absent`: what replacing does.
-/

namespace ValueMachine.Text

/-! ## Occurrences -/

section Occurrences

variable {α : Type} {pattern text : List α} {place : Nat}

/-- The pattern stands in the text after as many elements. -/
def OccursAt (pattern text : List α) (place : Nat) : Prop :=
  ∃ before after, text = before ++ pattern ++ after ∧ before.length = place

/-- The first place at which the pattern stands. -/
structure IsFirst (pattern text : List α) (place : Nat) : Prop where
  occurs : OccursAt pattern text place
  least : ∀ earlier < place, ¬OccursAt pattern text earlier

theorem occursAt_zero : OccursAt pattern text 0 ↔ pattern <+: text := by
  constructor
  · rintro ⟨before, after, rfl, none⟩
    obtain rfl := List.eq_nil_of_length_eq_zero none
    exact ⟨after, rfl⟩
  · rintro ⟨after, rfl⟩
    exact ⟨[], after, rfl, rfl⟩

theorem occursAt_cons_succ {a : α} :
    OccursAt pattern (a :: text) (place + 1) ↔ OccursAt pattern text place := by
  constructor
  · rintro ⟨before, after, eq, length⟩
    cases before with
    | nil => cases length
    | cons b before =>
      obtain ⟨-, rest⟩ := List.cons.inj eq
      exact ⟨before, after, rest, Nat.succ.inj length⟩
  · rintro ⟨before, after, rfl, rfl⟩
    exact ⟨a :: before, after, rfl, rfl⟩

theorem OccursAt.le (occurs : OccursAt pattern text place) :
    place + pattern.length ≤ text.length := by
  obtain ⟨before, after, rfl, rfl⟩ := occurs
  simp only [List.length_append]
  omega

theorem OccursAt.drop_eq (occurs : OccursAt pattern text place) :
    text.drop place = pattern ++ text.drop (place + pattern.length) := by
  obtain ⟨before, after, rfl, rfl⟩ := occurs
  rw [← List.length_append, List.drop_left, List.append_assoc, List.drop_left]

theorem isFirst_zero (prefixed : pattern <+: text) : IsFirst pattern text 0 :=
  ⟨occursAt_zero.mpr prefixed, fun _ lt => absurd lt (Nat.not_lt_zero _)⟩

theorem isFirst_cons_succ {a : α} (no : ¬pattern <+: a :: text) :
    IsFirst pattern (a :: text) (place + 1) ↔ IsFirst pattern text place := by
  constructor
  · intro first
    refine ⟨occursAt_cons_succ.mp first.occurs, fun earlier lt occurs => ?_⟩
    exact first.least (earlier + 1) (by omega) (occursAt_cons_succ.mpr occurs)
  · intro first
    refine ⟨occursAt_cons_succ.mpr first.occurs, fun earlier lt => ?_⟩
    cases earlier with
    | zero => exact mt occursAt_zero.mp no
    | succ earlier => exact mt occursAt_cons_succ.mp (first.least earlier (by omega))

theorem IsFirst.unique {other : Nat} (first : IsFirst pattern text place)
    (first' : IsFirst pattern text other) : place = other := by
  rcases Nat.lt_trichotomy place other with lt | eq | gt
  · exact absurd first.occurs (first'.least _ lt)
  · exact eq
  · exact absurd first'.occurs (first.least _ gt)

theorem exists_isFirst (occurs : OccursAt pattern text place) :
    ∃ first, IsFirst pattern text first := by
  classical
  exact ⟨Nat.find ⟨place, occurs⟩, Nat.find_spec ⟨place, occurs⟩, fun _ lt => Nat.find_min _ lt⟩

end Occurrences

/-! ## Searching -/

section Searching

variable {α : Type} [BEq α] [LawfulBEq α] {pattern : List α}

/-- What searching finds is the first place. -/
theorem find?_eq_some_iff {text : List α} {place : Nat} :
    find? pattern text = some place ↔ IsFirst pattern text place := by
  have found {text : List α} (prefixed : pattern <+: text) {place : Nat} :
      some 0 = some place ↔ IsFirst pattern text place := by
    rw [Option.some_inj]
    constructor
    · rintro rfl
      exact isFirst_zero prefixed
    · exact (isFirst_zero prefixed).unique
  induction text generalizing place with
  | nil =>
    rw [find?]
    by_cases empty : pattern = []
    · subst empty
      exact found List.nil_prefix
    · rw [if_neg (mt List.isEmpty_iff.mp empty)]
      refine iff_of_false nofun fun first => ?_
      have le := first.occurs.le
      simp only [List.length_nil, Nat.le_zero_eq, Nat.add_eq_zero_iff] at le
      exact empty (List.eq_nil_of_length_eq_zero le.2)
  | cons a text ih =>
    rw [find?]
    by_cases prefixed : pattern <+: a :: text
    · rw [if_pos (List.isPrefixOf_iff_prefix.mpr prefixed)]
      exact found prefixed
    · rw [if_neg (mt List.isPrefixOf_iff_prefix.mp prefixed), Option.map_eq_some_iff]
      constructor
      · rintro ⟨before, is, rfl⟩
        exact (isFirst_cons_succ prefixed).mpr (ih.mp is)
      · intro first
        cases place with
        | zero => exact absurd (occursAt_zero.mp first.occurs) prefixed
        | succ place => exact ⟨place, ih.mpr ((isFirst_cons_succ prefixed).mp first), rfl⟩

/-- Nothing is found where the pattern occurs nowhere. -/
theorem find?_eq_none_iff {text : List α} :
    find? pattern text = none ↔ ∀ place, ¬OccursAt pattern text place := by
  rw [Option.eq_none_iff_forall_ne_some]
  constructor
  · intro none place occurs
    obtain ⟨first, is⟩ := exists_isFirst occurs
    exact none first (find?_eq_some_iff.mpr is)
  · intro none place is
    exact none place (find?_eq_some_iff.mp is).occurs

end Searching

/-! ## Texts -/

variable {pattern text : List Char}

theorem contains_iff : contains pattern text = true ↔ ∃ place, OccursAt pattern text place := by
  induction text with
  | nil =>
    rw [contains, List.isEmpty_iff]
    constructor
    · rintro rfl
      exact ⟨0, occursAt_zero.mpr List.nil_prefix⟩
    · rintro ⟨place, occurs⟩
      have le := occurs.le
      simp only [List.length_nil, Nat.le_zero_eq, Nat.add_eq_zero_iff] at le
      exact List.eq_nil_of_length_eq_zero le.2
  | cons c text ih =>
    rw [contains, Bool.or_eq_true, List.isPrefixOf_iff_prefix, ih]
    constructor
    · rintro (prefixed | ⟨place, occurs⟩)
      · exact ⟨0, occursAt_zero.mpr prefixed⟩
      · exact ⟨place + 1, occursAt_cons_succ.mpr occurs⟩
    · rintro ⟨place, occurs⟩
      cases place with
      | zero => exact .inl (occursAt_zero.mp occurs)
      | succ place => exact .inr ⟨place, occursAt_cons_succ.mp occurs⟩

/-- A text is broken where searching finds the pattern. -/
theorem breakAt?_eq (pattern text : List Char) : breakAt? pattern text =
    (find? pattern text).map fun place =>
      (text.take place, text.drop (place + pattern.length)) := by
  induction text with
  | nil =>
    rw [breakAt?, find?]
    split
    · next empty => simp
    · rfl
  | cons c text ih =>
    rw [breakAt?, find?]
    split
    · rw [Option.map_some, Nat.zero_add]
      rfl
    · rw [ih, Option.map_map, Option.map_map]
      refine congrArg (Option.map · _) (funext fun place => ?_)
      show (c :: text.take place, text.drop (place + pattern.length)) =
        ((c :: text).take (place + 1), (c :: text).drop (place + 1 + pattern.length))
      rw [List.take_succ_cons, Nat.add_right_comm, List.drop_succ_cons]

theorem replaceFirst_of_isFirst {place : Nat} (first : IsFirst pattern text place)
    (replacement : List Char) : replaceFirst pattern replacement text =
      text.take place ++ replacement ++ text.drop (place + pattern.length) := by
  rw [replaceFirst, breakAt?_eq, find?_eq_some_iff.mpr first]
  rfl

theorem replaceFirst_of_absent (absent : ∀ place, ¬OccursAt pattern text place)
    (replacement : List Char) : replaceFirst pattern replacement text = text := by
  rw [replaceFirst, breakAt?_eq, find?_eq_none_iff.mpr absent]
  rfl

end ValueMachine.Text
