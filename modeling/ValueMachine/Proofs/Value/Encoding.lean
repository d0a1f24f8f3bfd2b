import ValueMachine.Proofs.Json.GeneralForm
import ValueMachine.Proofs.Value.Decoding

/-!
# Encoded values are JSON

The tree of a value has one text of the grammar, whatever its texts and numbers are. Numbers may
lose digits on the way, and what is infinite or no number is null.

Results:
* `encode_spells`: a value is written as a JSON text without repeated names, and no deeper than the
  reader takes it.
-/

namespace ValueMachine

open Json (Document NumberText Spells HasDistinctNames)

/-! ## Trees and their texts -/

instance : Nonempty Document := ⟨.null⟩

/-- The text of a tree spells a tree of the same shape. -/
theorem Unfolds.exists_spells {h : Heap} {limit : Nat} {path : List Value} {v : Value} {d : Document}
    (unfolds : Unfolds h limit path v d) :
    ∃ d', Spells (NumberText.value? .lenient) d' d.write ∧ HasDistinctNames d' ∧ d'.height = d.height := by
  induction unfolds with
  | deep => exact ⟨_, .text (Json.spellsText_quote _), .text _, rfl⟩
  | circular => exact ⟨_, .text (Json.spellsText_quote _), .text _, rfl⟩
  | box room payload inside ih => exact ih
  | undefined => exact ⟨_, .null, .null, rfl⟩
  | null => exact ⟨_, .null, .null, rfl⟩
  | function => exact ⟨_, .null, .null, rfl⟩
  | infinite => exact ⟨_, .null, .null, rfl⟩
  | number room payload finite =>
    have some : 0 < Number.standardPrecision := by decide
    obtain ⟨n, spells, _⟩ := Json.spellsNumber_general finite some (by decide)
    exact ⟨_, .number spells rfl, .number _, rfl⟩
  | bool => exact ⟨_, .bool _, .bool _, rfl⟩
  | text => exact ⟨_, .text (Json.spellsText_quote _), .text _, rfl⟩
  | extension => exact ⟨_, .text (Json.spellsText_quote _), .text _, rfl⟩
  | @array path v items documents room payload new length each ih =>
    have element : ∀ document ∈ documents, ∃ d', Spells (NumberText.value? .lenient) d' document.write ∧
        HasDistinctNames d' ∧ d'.height = document.height := by
      intro document mem
      obtain ⟨item, hp⟩ := exists_mem_zip length mem
      exact ih (item, document) hp
    choose! f spells distinct height using element
    refine ⟨.array (documents.map f), ?_, .array ?_, ?_⟩
    · rw [Document.write, Json.writeItems_eq]
      exact Json.spells_array spells
    · intro d' hd'
      obtain ⟨document, mem, rfl⟩ := List.mem_map.mp hd'
      exact distinct document mem
    · rw [Document.height, Document.height, Json.heightItems_eq, Json.heightItems_eq, List.map_map]
      exact congrArg (fun heights => List.foldr max 0 heights + 1) (List.map_congr_left height)
  | @object path v fields members room payload new names each ih =>
    have element : ∀ member ∈ members, ∃ d', Spells (NumberText.value? .lenient) d' member.2.write ∧
        HasDistinctNames d' ∧ d'.height = member.2.height := by
      intro member mem
      obtain ⟨field, hp⟩ := exists_mem_zip (length_eq_of_fst_eq names) mem
      exact ih (field, member) hp
    choose! f spells distinct height using element
    refine ⟨.object (members.map fun member => (member.1, f member)), ?_, .object ?_ ?_, ?_⟩
    · rw [Document.write, Json.writeMembers_eq]
      exact Json.spells_object spells
    · rw [List.map_map]
      exact names ▸ fields.nodup_keys
    · intro member' hm
      obtain ⟨member, mem, rfl⟩ := List.mem_map.mp hm
      exact distinct member mem
    · rw [Document.height, Document.height, Json.heightMembers_eq, Json.heightMembers_eq,
        List.map_map]
      exact congrArg (fun heights => List.foldr max 0 heights + 1) (List.map_congr_left height)

/-! ## Encoded values -/

/-- A value is written as the text of its tree, which is one text of the grammar, in which no object
has two members of one name. Its brackets nest no deeper than the limit, so the reader does not
refuse it for its depth. -/
theorem encode_spells (m : Machine) (v : Value) (acyclic : m.heap.HasNoBoxCycle v) :
    ∃ (text : Value) (m' : Machine) (content : String) (tree d : Document),
      (settle (Value.encode v)).run.run m = (.ok text, m') ∧ m'.status = .ok ∧
      m'.heap.payload text = .text false content ∧
      Unfolds m.heap m.config.jsonMaxDepth [] v tree ∧ content.toList = tree.write ∧
      Spells (NumberText.value? .lenient) d content.toList ∧ HasDistinctNames d ∧
      d.height ≤ m.config.jsonMaxDepth ∧
      Json.nesting content.toList ≤ m.config.jsonMaxDepth ∧
      ∃ w m'', (settle (Value.decode text)).run.run m' = (.ok w, m'') ∧
        m''.status ≠ (Fault.argument "parseJSON" "nesting too deep").status := by
  have unfolds : Unfolds m.heap m.config.jsonMaxDepth [] v (m.heap.unfold m.config.jsonMaxDepth [] v) :=
    (unfolds_iff acyclic (Nat.zero_le _)).mpr rfl
  obtain ⟨d, spells, distinct, height⟩ := unfolds.exists_spells
  have le : d.height ≤ m.config.jsonMaxDepth := height ▸ unfolds.height_le
  obtain ⟨text, m', encoded, ok, config, _, payload⟩ := settle_encode m v
  generalize written : String.ofList (m.heap.json m.config.jsonMaxDepth v) = content at payload
  have chars : content.toList = (m.heap.unfold m.config.jsonMaxDepth [] v).write := by
    rw [← written, String.toList_ofList, m.heap.json_eq]
  rw [← chars] at spells
  have shallow : Json.nesting content.toList ≤ m.config.jsonMaxDepth := by
    rwa [Json.nesting_of_spells spells]
  obtain ⟨w, m'', decoded, status⟩ := settle_decode m' payload
  rw [config] at status
  exact ⟨text, m', content, _, d, encoded, ok, payload, unfolds, chars, spells, distinct, le, shallow,
    w, m'', decoded, status ▸ readStatus_ne_deep shallow⟩

/-- An array of itself, an object with a control character in a name, a box around no number, and
numbers that are great, small and minus zero. -/
def medley : Heap :=
  .ofCells #[.ofPayload (.array #[.cell 0, .cell 1, .cell 2, .cell 4, .cell 5, .cell 6]),
    .ofPayload (.object (.ofList 8 [("\x01", .cell 0), ("\"\\", .null)])),
    ⟨.number, .counted, .box (.cell 3)⟩,
    .ofPayload (.number (0.0 / 0.0)),
    .ofPayload (.number 1.7976931348623157e308),
    .ofPayload (.number 5e-324),
    .ofPayload (.number (-0.0))]

theorem encode_spells_medley :
    let host : Host := ⟨"linux", "2024-01-01 00:00:00", 0, 0.5⟩
    let m : Machine := { Machine.start host [] with heap := medley }
    m.heap.HasNoBoxCycle (.cell 0) ∧
      ∃ (text : Value) (m' : Machine) (content : String) (tree d : Document),
        (settle (Value.encode (.cell 0))).run.run m = (.ok text, m') ∧ m'.status = .ok ∧
        m'.heap.payload text = .text false content ∧
        Unfolds m.heap m.config.jsonMaxDepth [] (.cell 0) tree ∧ content.toList = tree.write ∧
        Spells (NumberText.value? .lenient) d content.toList ∧ HasDistinctNames d ∧
        d.height ≤ m.config.jsonMaxDepth ∧
        Json.nesting content.toList ≤ m.config.jsonMaxDepth ∧
        ∃ w m'', (settle (Value.decode text)).run.run m' = (.ok w, m'') ∧
          m''.status ≠ (Fault.argument "parseJSON" "nesting too deep").status := by
  intro host m
  have acyclic : m.heap.HasNoBoxCycle (.cell 0) :=
    Heap.hasNoBoxCycle_of_flat [.cell 0, .cell 1, .cell 2, .cell 3, .cell 4, .cell 5, .cell 6, .null]
      (by decide) (by decide) (by decide)
  exact ⟨acyclic, encode_spells m (.cell 0) acyclic⟩

end ValueMachine
