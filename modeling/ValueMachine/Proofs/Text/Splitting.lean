import Mathlib.Data.List.Pairwise
import Mathlib.Data.List.Sort
import ValueMachine.Proofs.Text.Occurrences

/-!
# Parts between delimiters

A text is split at the occurrences of a delimiter that are met from left to right, each sought
behind the one before. Joining the parts gives the text back, and the parts are the only ones that
do so and have the delimiter behind them for the first time.

Results:
* `join_split`: joining undoes splitting;
* `isLeftmost_iff`: the parts are the one leftmost decomposition;
* `exists_cover`: where the delimiters stood, and how many there were.
-/

namespace ValueMachine.Text

/-! ## Occurrences in longer texts -/

section Longer

variable {α : Type} {pattern front back : List α} {place : Nat}

/-- What ends before the back is in the front. -/
theorem occursAt_append_left (le : place + pattern.length ≤ front.length) :
    OccursAt pattern (front ++ back) place ↔ OccursAt pattern front place := by
  constructor
  · rintro ⟨before, after, eq, rfl⟩
    rw [← List.length_append] at le
    obtain ⟨rest, rfl⟩ : before ++ pattern <+: front :=
      List.prefix_of_prefix_length_le ⟨after, eq.symm⟩ (List.prefix_append _ _) le
    exact ⟨before, rest, rfl, rfl⟩
  · rintro ⟨before, after, rfl, rfl⟩
    exact ⟨before, after ++ back, List.append_assoc .., rfl⟩

/-- What starts behind the front is in the back. -/
theorem occursAt_append_right :
    OccursAt pattern (front ++ back) (front.length + place) ↔ OccursAt pattern back place := by
  induction front with
  | nil => rw [List.nil_append, List.length_nil, Nat.zero_add]
  | cons a front ih =>
    rw [List.cons_append, List.length_cons, Nat.add_right_comm, occursAt_cons_succ, ih]

/-- A pattern is first behind a part or not, whatever follows. -/
theorem isFirst_append (part pattern back : List α) :
    IsFirst pattern (part ++ pattern ++ back) part.length ↔
      IsFirst pattern (part ++ pattern) part.length := by
  have local_ {earlier : Nat} (lt : earlier < part.length) :
      OccursAt pattern (part ++ pattern ++ back) earlier ↔
        OccursAt pattern (part ++ pattern) earlier :=
    occursAt_append_left (by rw [List.length_append]; omega)
  constructor
  · intro first
    exact ⟨⟨part, [], (List.append_nil _).symm, rfl⟩, fun earlier lt occurs =>
      first.least earlier lt ((local_ lt).mpr occurs)⟩
  · intro first
    exact ⟨⟨part, back, rfl, rfl⟩, fun earlier lt occurs =>
      first.least earlier lt ((local_ lt).mp occurs)⟩

end Longer

/-! ## Leftmost decompositions -/

variable {delimiter text : List Char} {parts : List (List Char)}

/-- No part contains the delimiter, and behind every part but the last it stands for the first
time. -/
structure IsLeftmost (delimiter : List Char) (parts : List (List Char)) : Prop where
  free : ∀ part ∈ parts, ∀ place, ¬OccursAt delimiter part place
  first : ∀ part ∈ parts.dropLast, IsFirst delimiter (part ++ delimiter) part.length

theorem isLeftmost_singleton {part : List Char} :
    IsLeftmost delimiter [part] ↔ ∀ place, ¬OccursAt delimiter part place := by
  constructor
  · exact fun leftmost => leftmost.free part (List.mem_singleton_self _)
  · intro free
    refine ⟨fun other mem => ?_, fun other mem => absurd mem List.not_mem_nil⟩
    obtain rfl := List.mem_singleton.mp mem
    exact free

/-- A part that has the delimiter behind it for the first time does not contain it. -/
theorem IsFirst.free {part : List Char} (first : IsFirst delimiter (part ++ delimiter) part.length)
    (some : delimiter ≠ []) (place : Nat) : ¬OccursAt delimiter part place := by
  intro occurs
  have le := occurs.le
  have pos := List.length_pos_iff.mpr some
  exact first.least place (by omega) ((occursAt_append_left le).mpr occurs)

theorem isLeftmost_cons {part next : List Char} (some : delimiter ≠ []) :
    IsLeftmost delimiter (part :: next :: parts) ↔
      IsFirst delimiter (part ++ delimiter) part.length ∧ IsLeftmost delimiter (next :: parts) := by
  constructor
  · intro leftmost
    refine ⟨leftmost.first part List.mem_cons_self, fun other mem => ?_, fun other mem => ?_⟩
    · exact leftmost.free other (List.mem_cons_of_mem _ mem)
    · exact leftmost.first other (List.mem_cons_of_mem _ mem)
  · rintro ⟨first, free, others⟩
    refine ⟨fun other mem => ?_, fun other mem => ?_⟩
    · obtain rfl | mem := List.mem_cons.mp mem
      · exact first.free some
      · exact free other mem
    · obtain rfl | mem := List.mem_cons.mp mem
      · exact first
      · exact others other mem

theorem join_cons_cons (delimiter part next : List Char) (parts : List (List Char)) :
    join delimiter (part :: next :: parts) = part ++ delimiter ++ join delimiter (next :: parts) :=
  rfl

/-- A text has one leftmost decomposition at most. -/
theorem IsLeftmost.unique (some : delimiter ≠ []) {part : List Char} {part' : List Char}
    {parts' : List (List Char)} (leftmost : IsLeftmost delimiter (part :: parts))
    (leftmost' : IsLeftmost delimiter (part' :: parts'))
    (same : join delimiter (part :: parts) = join delimiter (part' :: parts')) :
    part :: parts = part' :: parts' := by
  induction parts generalizing part part' parts' with
  | nil =>
    cases parts' with
    | nil => exact congrArg (fun p => [p]) same
    | cons next' parts' =>
      obtain rfl : part = _ := same
      exact absurd ⟨part', _, rfl, rfl⟩ (isLeftmost_singleton.mp leftmost part'.length)
  | cons next parts ih =>
    cases parts' with
    | nil =>
      obtain rfl : _ = part' := same
      exact absurd ⟨part, _, rfl, rfl⟩ (isLeftmost_singleton.mp leftmost' part.length)
    | cons next' parts' =>
      obtain ⟨first, others⟩ := (isLeftmost_cons some).mp leftmost
      obtain ⟨first', others'⟩ := (isLeftmost_cons some).mp leftmost'
      rw [join_cons_cons, join_cons_cons] at same
      rw [← isFirst_append _ _ (join delimiter (next :: parts)), same] at first
      rw [← isFirst_append _ _ (join delimiter (next' :: parts'))] at first'
      rw [List.append_assoc, List.append_assoc] at same
      obtain ⟨rfl, rest⟩ := List.append_inj same (first.unique first')
      rw [ih others others' (List.append_cancel_left rest)]

/-! ## Splitting -/

theorem splitWithin_of_isFirst {place : Nat} (first : IsFirst delimiter text place) (fuel : Nat) :
    splitWithin delimiter (fuel + 1) text =
      text.take place :: splitWithin delimiter fuel (text.drop (place + delimiter.length)) := by
  rw [splitWithin, breakAt?_eq, find?_eq_some_iff.mpr first]
  rfl

theorem splitWithin_of_absent (absent : ∀ place, ¬OccursAt delimiter text place) (fuel : Nat) :
    splitWithin delimiter fuel text = [text] := by
  cases fuel with
  | zero => rfl
  | succ fuel =>
    rw [splitWithin, breakAt?_eq, find?_eq_none_iff.mpr absent]
    rfl

/-- The parts are a leftmost decomposition, if there is fuel for every character. -/
theorem splitWithin_spec (some : delimiter ≠ []) (fuel : Nat) (enough : text.length ≤ fuel) :
    ∃ part parts, splitWithin delimiter fuel text = part :: parts ∧
      join delimiter (part :: parts) = text ∧ IsLeftmost delimiter (part :: parts) := by
  have pos := List.length_pos_iff.mpr some
  induction fuel generalizing text with
  | zero =>
    refine ⟨text, [], rfl, rfl, isLeftmost_singleton.mpr fun place occurs => ?_⟩
    have le := occurs.le
    omega
  | succ fuel ih =>
    by_cases absent : ∀ place, ¬OccursAt delimiter text place
    · exact ⟨text, [], splitWithin_of_absent absent _, rfl, isLeftmost_singleton.mpr absent⟩
    · obtain ⟨somewhere, occurs⟩ := not_forall_not.mp absent
      obtain ⟨place, first⟩ := exists_isFirst occurs
      obtain ⟨before, after, rfl, rfl⟩ := first.occurs
      have rest : (before ++ delimiter ++ after).drop (before.length + delimiter.length) =
          after := by
        rw [← List.length_append, List.drop_left]
      have shorter : after.length ≤ fuel := by
        rw [List.length_append, List.length_append] at enough
        omega
      obtain ⟨part, parts, eq, joined, leftmost⟩ := ih shorter
      refine ⟨before, part :: parts, ?_, ?_, (isLeftmost_cons some).mpr ⟨?_, leftmost⟩⟩
      · rw [splitWithin_of_isFirst first, rest, eq, List.append_assoc, List.take_left]
      · rw [join_cons_cons, joined]
      · exact (isFirst_append before delimiter after).mp first

/-- The parts of a text are its one leftmost decomposition. -/
theorem isLeftmost_iff (some : delimiter ≠ []) :
    parts ≠ [] ∧ join delimiter parts = text ∧ IsLeftmost delimiter parts ↔
      parts = split delimiter text := by
  obtain ⟨part, others, eq, joined, leftmost⟩ := splitWithin_spec some text.length le_rfl
  rw [split, if_neg (mt List.isEmpty_iff.mp some), eq]
  constructor
  · rintro ⟨ne, joined', leftmost'⟩
    obtain ⟨part', others', rfl⟩ := List.exists_cons_of_ne_nil ne
    exact leftmost'.unique some leftmost (joined'.trans joined.symm)
  · rintro rfl
    exact ⟨List.cons_ne_nil _ _, joined, leftmost⟩

theorem split_nil (text : List Char) : split [] text = text.map fun c => [c] := rfl

theorem join_nil (parts : List (List Char)) : join [] parts = parts.flatten := by
  induction parts with
  | nil => rfl
  | cons part parts ih =>
    cases parts with
    | nil => exact (List.append_nil part).symm
    | cons next parts =>
      rw [join_cons_cons, ih, List.append_nil]
      rfl

/-- Joining undoes splitting. -/
theorem join_split (delimiter text : List Char) : join delimiter (split delimiter text) = text := by
  by_cases none : delimiter = []
  · rw [none, split_nil, join_nil]
    exact List.flatMap_singleton' text
  · exact ((isLeftmost_iff none).mpr rfl).2.1

/-! ## Where the delimiters stand -/

/-- Occurrences that do not overlap and of which one covers the start of every occurrence: the first
occurrence, the first one behind it, and so on. -/
structure IsCover (delimiter text : List Char) (places : List Nat) : Prop where
  occurs : ∀ place ∈ places, OccursAt delimiter text place
  apart : places.Pairwise fun place next => place + delimiter.length ≤ next
  covers : ∀ place, OccursAt delimiter text place →
    ∃ start ∈ places, start ≤ place ∧ place < start + delimiter.length

/-- The places of the delimiters between parts. -/
def delimiterPlaces (delimiter : List Char) : List (List Char) → List Nat
  | part :: next :: parts =>
    part.length :: (delimiterPlaces delimiter (next :: parts)).map
      (part.length + delimiter.length + ·)
  | _ => []

theorem length_delimiterPlaces (delimiter part : List Char) (parts : List (List Char)) :
    (delimiterPlaces delimiter (part :: parts)).length = parts.length := by
  induction parts generalizing part with
  | nil => rfl
  | cons next parts ih =>
    rw [delimiterPlaces, List.length_cons, List.length_map, ih, List.length_cons]

/-- The delimiters between the parts of a leftmost decomposition. -/
theorem IsLeftmost.isCover (some : delimiter ≠ []) {part : List Char}
    (leftmost : IsLeftmost delimiter (part :: parts)) :
    IsCover delimiter (join delimiter (part :: parts))
      (delimiterPlaces delimiter (part :: parts)) := by
  induction parts generalizing part with
  | nil =>
    refine ⟨nofun, List.Pairwise.nil, fun place occurs => ?_⟩
    exact absurd occurs (isLeftmost_singleton.mp leftmost place)
  | cons next parts ih =>
    obtain ⟨first, others⟩ := (isLeftmost_cons some).mp leftmost
    obtain ⟨occurs, apart, covers⟩ := ih others
    have first := (isFirst_append _ _ (join delimiter (next :: parts))).mpr first
    have behind (place : Nat) : OccursAt delimiter (join delimiter (part :: next :: parts))
        (part.length + delimiter.length + place) ↔
          OccursAt delimiter (join delimiter (next :: parts)) place := by
      rw [join_cons_cons, ← List.length_append, occursAt_append_right]
    rw [delimiterPlaces]
    refine ⟨fun place mem => ?_, List.pairwise_cons.mpr ⟨fun place mem => ?_, ?_⟩,
      fun place here => ?_⟩
    · obtain rfl | mem := List.mem_cons.mp mem
      · exact first.occurs
      · obtain ⟨start, there, rfl⟩ := List.mem_map.mp mem
        exact (behind start).mpr (occurs start there)
    · obtain ⟨start, -, rfl⟩ := List.mem_map.mp mem
      exact Nat.le_add_right _ _
    · rw [List.pairwise_map]
      exact apart.imp fun le => by omega
    · -- before the first delimiter there is none, and behind it they are those of the other parts
      have after : part.length ≤ place := Nat.le_of_not_lt fun lt => first.least place lt here
      by_cases near : place < part.length + delimiter.length
      · exact ⟨part.length, List.mem_cons_self, after, near⟩
      · obtain ⟨shift, rfl⟩ := Nat.exists_eq_add_of_le (Nat.le_of_not_lt near)
        obtain ⟨start, mem, le, lt⟩ := covers shift ((behind shift).mp here)
        exact ⟨_, List.mem_cons_of_mem _ (List.mem_map_of_mem mem), by omega, by omega⟩

/-- Two places of a cover do not overlap. -/
theorem IsCover.not_overlap {places : List Nat} (cover : IsCover delimiter text places)
    {start place : Nat} (mem : start ∈ places) (mem' : place ∈ places) (lt : start < place) :
    start + delimiter.length ≤ place := by
  let Apart (a b : Nat) : Prop := a + delimiter.length ≤ b ∨ b + delimiter.length ≤ a
  have symm : Std.Symm Apart := ⟨fun _ _ => Or.symm⟩
  have apart : places.Pairwise Apart := cover.apart.imp Or.inl
  obtain le | le := apart.forall mem mem' lt.ne
  · exact le
  · omega

/-- There is one cover, whose places are found from left to right. -/
theorem IsCover.unique {places places' : List Nat} (some : delimiter ≠ [])
    (cover : IsCover delimiter text places) (cover' : IsCover delimiter text places') :
    places = places' := by
  -- a place that is covered from before it would overlap
  have step {ps qs : List Nat} (one : IsCover delimiter text ps)
      (other : IsCover delimiter text qs) {place : Nat}
      (before : ∀ start < place, start ∈ qs → start ∈ ps) (mem : place ∈ ps) : place ∈ qs := by
    obtain ⟨start, there, le, lt⟩ := other.covers place (one.occurs place mem)
    obtain rfl | less := le.eq_or_lt
    · exact there
    · have far := one.not_overlap (before start less there) mem less
      omega
  have same (place : Nat) : place ∈ places ↔ place ∈ places' := by
    induction place using Nat.strong_induction_on with
    | _ place ih =>
      exact ⟨step cover cover' fun start lt => (ih start lt).mpr,
        step cover' cover fun start lt => (ih start lt).mp⟩
  have pos := List.length_pos_iff.mpr some
  have sorted {ps : List Nat} (one : IsCover delimiter text ps) : ps.Pairwise (· < ·) :=
    one.apart.imp fun le => by omega
  exact (sorted cover).eq_of_mem_iff (sorted cover') same

/-- The places of the delimiters are the one cover of the text, and there is one part more. -/
theorem exists_cover (some : delimiter ≠ []) (text : List Char) : ∃ places,
    (∀ ps, IsCover delimiter text ps ↔ ps = places) ∧
      (split delimiter text).length = places.length + 1 := by
  obtain ⟨ne, joined, leftmost⟩ := (isLeftmost_iff some).mpr (Eq.refl (split delimiter text))
  obtain ⟨part, parts, eq⟩ := List.exists_cons_of_ne_nil ne
  rw [eq] at joined leftmost ⊢
  have cover := leftmost.isCover some
  rw [joined] at cover
  refine ⟨_, fun ps => ⟨fun other => other.unique some cover, fun same => same ▸ cover⟩, ?_⟩
  rw [length_delimiterPlaces, List.length_cons]

end ValueMachine.Text
