import ValueMachine.Proofs.Text.Splitting
import ValueMachine.Proofs.Value.NewArrays
import ValueMachine.Proofs.Value.TextPositions

/-!
# Splitting and joining texts

A text is split into an array of new texts, and the elements of an array are joined to a text.
Joining with the delimiter undoes the splitting.

Results:
* `exists_split`: what splitting makes;
* `answers_join`: what joining an array of texts answers;
* `split_join`: one after the other.
-/

namespace ValueMachine

open Text (IsCover IsLeftmost)

section Operations

variable {config : Config} {h : Heap} {m : Machine} {s d w : Value} {isStatic : Bool}
  {text : String}

/-- The delimiter that a handle stands for when a text is split. -/
def Payload.delimiter (p : Payload) : String := p.text?.getD " "

/-- Splitting makes a new array of new texts. -/
theorem exists_split (hs : m.heap.payload s = .text isStatic text) : ∃ w h,
    (settle (Value.split s d)).run.run m = (.ok w, { m with heap := h, status := .ok }) ∧
      m.heap.MakesArray h w ((Text.split (m.heap.payload d).delimiter.toList text.toList).map
        fun part => .text false (.ofList part)) := by
  let parts := Text.split (m.heap.payload d).delimiter.toList text.toList
  have is : (m.heap.payload s).text? = some text := by rw [hs]; rfl
  have chars : HeapM.perform (Value.charsArg s "split" "requires string" (Value.nullOf .object)).run
      m.config m.heap = (.ok text.toList, m.heap) := by
    rw [Value.charsArg, Attempt.bind_ok (perform_require _ m.config is _ _ _)]
    rfl
  have made := HeapM.makesArray_mapM (f := Value.ofChars)
    (fun part => HeapM.yields_ofPayload (.text false (.ofList part))) (fun _ => Payload.noConfusion) parts
    m.config m.heap
  have run : HeapM.perform (Value.split s d).run m.config m.heap =
      (.ok ((parts.mapM Value.ofChars >>= Value.ofList).perform m.config m.heap).1,
        ((parts.mapM Value.ofChars >>= Value.ofList).perform m.config m.heap).2) := by
    rw [Value.split, Attempt.bind_ok chars, Attempt.bind_payloadOf]
    exact Attempt.bind_ok (Attempt.perform_mapM_lift Value.ofChars parts m.config m.heap) _
  exact ⟨_, _, settle_ok run, made⟩

theorem display_of_text (is : h.payload w = .text isStatic text) : h.display w = text := by
  have notBox : (h.payload w).isBox = false := by rw [is]; rfl
  rw [Heap.display, Heap.contentPayload, Heap.content_of_not_isBox notBox, is]

/-- Texts are displayed as they are. -/
theorem display_of_texts {vs : List Value} {parts : List (List Char)}
    (texts : vs.map h.payload = parts.map fun part => .text false (.ofList part)) :
    vs.map (fun v => (h.display v).toList) = parts := by
  induction vs generalizing parts with
  | nil => exact (List.map_eq_nil_iff.mp texts.symm).symm
  | cons v vs ih =>
    cases parts with
    | nil => cases texts
    | cons part parts =>
      obtain ⟨first, others⟩ := List.cons.inj texts
      rw [List.map_cons, display_of_text first, ih others, String.toList_ofList]

/-- Texts are joined as they are. -/
theorem answers_join {vs : List Value} {parts : List (List Char)} {separator : String}
    (array : h.payload w = .array vs.toArray)
    (texts : vs.map h.payload = parts.map fun part => .text false (.ofList part))
    (hd : (h.payload d).text? = some separator) :
    Attempt.Answers (Value.join w d) (.text false (.ofList (Text.join separator.toList parts)))
      config h := by
  have is : (h.payload w).array? = some vs.toArray := by rw [array]; rfl
  rw [Value.join]
  refine Attempt.answers_require is ?_
  rw [Attempt.answers_payloadOf, hd, Attempt.answers_get, ← display_of_texts texts]
  exact Attempt.answers_ofText _

/-- A text is split into an array of new texts, which are joined to the text again by the delimiter,
a space if none was given. If the delimiter is empty they are the characters of the text. Else they
are the only parts in which no delimiter is left and behind which, but for the last one, it stands
for the first time; and there is one more of them than there are occurrences that are met from left
to right, each behind the one before. -/
theorem split_join (hs : m.heap.payload s = .text isStatic text) (d : Value) :
    let delimiter := (m.heap.payload d).delimiter
    ∃ w h parts, (settle (Value.split s d)).run.run m =
        (.ok w, { m with heap := h, status := .ok }) ∧
      m.heap.MakesArray h w (parts.map fun part => .text false (.ofList part)) ∧
      (∀ separator, (h.payload separator).text? = some delimiter → ∃ w' h',
        (settle (Value.join w separator)).run.run { m with heap := h, status := .ok } =
          (.ok w', { m with heap := h', status := .ok }) ∧ h'.payload w' = .text false text) ∧
      (delimiter = "" → parts = text.toList.map fun c => [c]) ∧
      (delimiter ≠ "" →
        (∀ others, others ≠ [] ∧ Text.join delimiter.toList others = text.toList ∧
          IsLeftmost delimiter.toList others ↔ others = parts) ∧
        ∃ places, (∀ others, IsCover delimiter.toList text.toList others ↔ others = places) ∧
          parts.length = places.length + 1) := by
  intro delimiter
  obtain ⟨w, h, run, made⟩ := exists_split (d := d) hs
  refine ⟨w, h, _, run, made, fun separator is => ?_, fun empty => ?_, fun some => ?_⟩
  · obtain ⟨grows, -, vs, array, texts⟩ := made
    have answers : Attempt.Answers (Value.join w separator) _ m.config h :=
      answers_join array texts is
    rw [Text.join_split, String.ofList_toList] at answers
    unfold Attempt.Answers at answers
    generalize run : HeapM.perform (Value.join w separator).run m.config h = outcome at answers
    obtain ⟨failure | w', h'⟩ := outcome
    · exact answers.elim
    · exact ⟨w', h', settle_ok run, answers.1⟩
  · rw [show (m.heap.payload d).delimiter = "" from empty]
    exact Text.split_nil _
  · have some : delimiter.toList ≠ [] := mt String.toList_eq_nil_iff.mp some
    exact ⟨fun others => Text.isLeftmost_iff some, Text.exists_cover some _⟩

end Operations

/-- A machine with a text in which another one stands three times, two of them over each other. -/
def fruit : Machine :=
  { Machine.start ⟨"linux", "2024-01-01 00:00:00", 0, 0.5⟩ [] with
    heap := .ofCells #[.ofPayload (.text false "banananaé"), .ofPayload (.text false "ana")] }

/-- The second of three occurrences overlaps the first one and does not count. -/
theorem split_join_fruit :
    fruit.heap.payload (.cell 0) = .text false "banananaé" ∧
      ∃ w h, (settle (Value.split (.cell 0) (.cell 1))).run.run fruit =
          (.ok w, { fruit with heap := h, status := .ok }) ∧
        fruit.heap.MakesArray h w [.text false "b", .text false "n", .text false "é"] ∧
        ∃ w' h', (settle (Value.join w (.cell 1))).run.run { fruit with heap := h, status := .ok } =
            (.ok w', { fruit with heap := h', status := .ok }) ∧
          h'.payload w' = .text false "banananaé" := by
  have hs : fruit.heap.payload (.cell 0) = .text false "banananaé" := rfl
  obtain ⟨w, h, parts, run, made, joined, -, decomposed⟩ := split_join hs (.cell 1)
  have some : (fruit.heap.payload (.cell 1)).delimiter ≠ "" := by decide
  obtain rfl : parts = Text.split "ana".toList "banananaé".toList :=
    (Text.isLeftmost_iff (by decide)).mp (((decomposed some).1 parts).mpr rfl)
  have parts_eq : Text.split "ana".toList "banananaé".toList = [['b'], ['n'], ['é']] := by decide
  rw [parts_eq] at made
  have kept : (h.payload (.cell 1)).text? = "ana" := by
    rw [made.1.payload_eq (fun none => by cases none)]
    rfl
  exact ⟨hs, w, h, run, made, joined (.cell 1) kept⟩

end ValueMachine
