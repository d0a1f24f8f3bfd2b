import Mathlib.Order.Bounds.Basic
import ValueMachine.Proofs.Json.Recursion
import ValueMachine.Proofs.Json.WellFormed
import ValueMachine.Proofs.Value.Decoding

/-!
# The limit on nesting

A text is measured before it is read, without regard to its grammar. The measure is exact for
well-formed texts, and for all others no reader goes deeper before it finds the fault.

Results:
* `isGreatest_nesting`: the nesting of a well-formed text is the most that is open at a point;
* `nesting_limit`: what is refused for its depth, and how deep the reader goes otherwise.
-/

namespace ValueMachine

namespace Json

/-- So many arrays and objects are open at a point of the text that a reader comes to. -/
def IsOpenAt (text : List Char) (n : Nat) : Prop :=
  ∃ before p, before <+: text ∧ Point.start.after? before = some p ∧ p.around.length = n

theorem IsOpenAt.le_nesting {text : List Char} {n : Nat} (isOpen : IsOpenAt text n) :
    n ≤ nesting text := by
  obtain ⟨before, p, ⟨rest, rfl⟩, reaches, rfl⟩ := isOpen
  exact Point.around_le_nestingFrom reaches rest

/-- A reader comes to every point of a well-formed text. -/
theorem IsWellFormed.reaches {text before : List Char} (wellFormed : IsWellFormed text)
    (starts : before <+: text) : ∃ p, Point.start.after? before = some p := by
  obtain ⟨p, reaches, -⟩ := wellFormed
  obtain ⟨rest, rfl⟩ := starts
  rw [Point.after?_append] at reaches
  obtain ⟨q, reaches, -⟩ := Option.bind_eq_some_iff.mp reaches
  exact ⟨q, reaches⟩

theorem IsWellFormed.isGreatest_nesting {text : List Char} (wellFormed : IsWellFormed text) :
    IsGreatest {n | IsOpenAt text n} (nesting text) := by
  obtain ⟨p, reaches, -⟩ := wellFormed
  obtain ⟨before, q, starts, reaches', eq⟩ := Point.exists_around_eq reaches
  exact ⟨⟨before, q, starts, reaches', eq⟩, fun n isOpen => isOpen.le_nesting⟩

end Json

open Json (Document IsOpenAt IsWellFormed)

/-- The nesting of a text is never less than what a reader finds open at a point of the text, and for a
well-formed text no more than that, which is the height of its tree. Texts of more nesting than the
limit are refused, and all others are read the same by a reader that goes no deeper than the limit. -/
theorem nesting_limit {m : Machine} {v : Value} {isStatic : Bool} {content : String}
    (payload : m.heap.payload v = .text isStatic content) :
    (∀ n, IsOpenAt content.toList n → n ≤ Json.nesting content.toList) ∧
    (IsWellFormed content.toList →
      (∀ before, before <+: content.toList → ∃ p, Json.Point.start.after? before = some p) ∧
      IsGreatest {n | IsOpenAt content.toList n} (Json.nesting content.toList)) ∧
    (∀ number? d, Json.Spells number? d content.toList →
      IsWellFormed content.toList ∧ Json.nesting content.toList = d.height) ∧
    ∃ w m', (settle (Value.decode v)).run.run m = (.ok w, m') ∧
      (IsWellFormed content.toList →
        (m'.status = (Fault.argument "parseJSON" "nesting too deep").status ↔
          ∃ n, IsOpenAt content.toList n ∧ m.config.jsonMaxDepth < n)) ∧
      (m'.status ≠ (Fault.argument "parseJSON" "nesting too deep").status →
        (∀ n, IsOpenAt content.toList n → n ≤ m.config.jsonMaxDepth) ∧
        Document.readWithin? m.config.jsonMaxDepth content.toList =
          Document.read? content.toList) := by
  refine ⟨fun n => IsOpenAt.le_nesting,
    fun wellFormed => ⟨fun before => wellFormed.reaches, wellFormed.isGreatest_nesting⟩,
    fun number? d spells => ⟨spells.isWellFormed, Json.nesting_of_spells spells⟩, ?_⟩
  obtain ⟨w, m', ran, status⟩ := settle_decode m payload
  refine ⟨w, m', ran, fun wellFormed => ?_, fun notDeep => ?_⟩
  · rw [status, readStatus_eq_deep_iff]
    obtain ⟨attained, greatest⟩ := wellFormed.isGreatest_nesting
    refine ⟨fun deep => ⟨_, attained, deep⟩, ?_⟩
    rintro ⟨n, isOpen, deep⟩
    exact deep.trans_le (greatest isOpen)
  · rw [status, Ne, readStatus_eq_deep_iff, Nat.not_lt] at notDeep
    exact ⟨fun n isOpen => isOpen.le_nesting.trans notDeep, Json.readWithin?_eq notDeep⟩

/-- Brackets, quotation marks and a backslash within names and texts do not count. -/
theorem nesting_limit_quoted :
    let content := "\x7b\"]\\\\\\\"[[\": [\"\\\\\", \x7b\"[\\ud800\": 0.5e+1 \x7d]\x7d"
    let host : Host := ⟨"linux", "2024-01-01 00:00:00", 0, 0.5⟩
    let m : Machine := { Machine.start host [] with
      heap := .ofCells #[.ofPayload (.text false content)]
      config := { Config.standard with jsonMaxDepth := 2 } }
    IsWellFormed content.toList ∧ Json.nesting content.toList = 3 ∧
      m.heap.payload (.cell 0) = .text false content ∧
      (∀ n, IsOpenAt content.toList n → n ≤ Json.nesting content.toList) ∧
      (IsWellFormed content.toList →
        (∀ before, before <+: content.toList → ∃ p, Json.Point.start.after? before = some p) ∧
        IsGreatest {n | IsOpenAt content.toList n} (Json.nesting content.toList)) ∧
      (∀ number? d, Json.Spells number? d content.toList →
        IsWellFormed content.toList ∧ Json.nesting content.toList = d.height) ∧
      ∃ w m', (settle (Value.decode (.cell 0))).run.run m = (.ok w, m') ∧
        (IsWellFormed content.toList →
          (m'.status = (Fault.argument "parseJSON" "nesting too deep").status ↔
            ∃ n, IsOpenAt content.toList n ∧ m.config.jsonMaxDepth < n)) ∧
        (m'.status ≠ (Fault.argument "parseJSON" "nesting too deep").status →
          (∀ n, IsOpenAt content.toList n → n ≤ m.config.jsonMaxDepth) ∧
          Document.readWithin? m.config.jsonMaxDepth content.toList =
            Document.read? content.toList) := by
  intro content host m
  have payload : m.heap.payload (.cell 0) = .text false content := rfl
  have wellFormed : IsWellFormed content.toList := ⟨⟨[], .ended⟩, by decide +kernel, rfl, rfl⟩
  exact ⟨wellFormed, by decide +kernel, payload, nesting_limit payload⟩

end ValueMachine
