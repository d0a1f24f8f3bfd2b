import ValueMachine.Proofs.Value.JsonRoundTrip

/-!
# How reading JSON ends

Results:
* `settle_decode`: the status that reading a text leaves;
* `readStatus_eq_ok_iff`: it is `ok` exactly for texts that have a tree and are not too deep;
* `settle_encode`, `settle_decode_of_read`: what writing and reading leave behind.
-/

namespace ValueMachine

open Json (Document)

/-- The status after reading a text. -/
def readStatus (read? : List Char → Option Document) (limit : Nat) (content : List Char) : Status :=
  if limit < Json.nesting content then (Fault.argument "parseJSON" "nesting too deep").status
  else if (read? content).isSome then .ok
  else (Fault.argument "parseJSON" "invalid JSON format").status

section Statuses

variable {read? : List Char → Option Document} {limit : Nat} {content : List Char}

theorem readStatus_eq_ok_iff :
    readStatus read? limit content = .ok ↔
      Json.nesting content ≤ limit ∧ ∃ d, read? content = some d := by
  have deep : (Fault.argument "parseJSON" "nesting too deep").status ≠ .ok := by decide
  have unread : (Fault.argument "parseJSON" "invalid JSON format").status ≠ .ok := by decide
  rw [readStatus]
  split
  · next lt => simp [deep, lt]
  · next le =>
    cases read? content <;> simp [unread, Nat.not_lt.mp le]

/-- What is no deeper than the limit is not refused for its depth. -/
theorem readStatus_ne_deep (shallow : Json.nesting content ≤ limit) :
    readStatus read? limit content ≠ (Fault.argument "parseJSON" "nesting too deep").status := by
  rw [readStatus, if_neg (Nat.not_lt.mpr shallow)]
  split <;> decide

/-- What is deeper than the limit is refused for its depth, and nothing else is. -/
theorem readStatus_eq_deep_iff :
    readStatus read? limit content = (Fault.argument "parseJSON" "nesting too deep").status ↔
      limit < Json.nesting content := by
  refine ⟨fun deep => Nat.lt_of_not_le fun shallow => readStatus_ne_deep shallow deep, fun deep => ?_⟩
  rw [readStatus, if_pos deep]

end Statuses

/-- Reading a text ends, with this status. -/
theorem settle_decode (m : Machine) {text : Value} {isStatic : Bool} {content : String}
    (payload : m.heap.payload text = .text isStatic content) :
    ∃ w m', (settle (Value.decode text)).run.run m = (.ok w, m') ∧
      m'.status = readStatus m.heap.outside.document? m.config.jsonMaxDepth content.toList := by
  rw [settle_eq, decode_run payload, readStatus]
  by_cases deep : m.config.jsonMaxDepth < Json.nesting content.toList
  · rw [if_pos deep, if_pos deep, perform_failNull]
    exact ⟨_, _, rfl, rfl⟩
  · rw [if_neg deep, if_neg deep]
    cases m.heap.outside.document? content.toList with
    | none => exact ⟨_, _, rfl, rfl⟩
    | some d => exact ⟨_, _, rfl, rfl⟩

/-- Reading a text that has a tree makes new cells, which show the tree, merged. -/
theorem settle_decode_of_read (m : Machine) {text : Value} {isStatic : Bool} {content : String}
    {d : Document} (payload : m.heap.payload text = .text isStatic content)
    (shallow : Json.nesting content.toList ≤ m.config.jsonMaxDepth)
    (reads : m.heap.outside.document? content.toList = some d) :
    ∃ w m' addresses, (settle (Value.decode text)).run.run m = (.ok w, m') ∧ m'.status = .ok ∧
      m'.config = m.config ∧ m.heap.Grows m'.heap ∧ Shows m'.heap w d.merged addresses ∧
      AreNew m.heap.size m'.heap.size addresses := by
  obtain ⟨grows, addresses, shown, new⟩ := builds d m.config m.heap
  exact ⟨_, _, addresses, settle_ok (decode_eq payload shallow reads), rfl, rfl, grows, shown, new⟩

/-- A text that has no tree is refused. -/
theorem settle_decode_of_unread (m : Machine) {text : Value} {isStatic : Bool} {content : String}
    (payload : m.heap.payload text = .text isStatic content)
    (shallow : Json.nesting content.toList ≤ m.config.jsonMaxDepth)
    (unread : m.heap.outside.document? content.toList = none) :
    ∃ w m', (settle (Value.decode text)).run.run m = (.ok w, m') ∧
      m'.status = (Fault.argument "parseJSON" "invalid JSON format").status ∧
      m'.heap.payload w = .null := by
  rw [settle_eq, decode_run payload, if_neg (Nat.not_lt.mpr shallow), unread]
  exact ⟨_, _, rfl, rfl, congrArg Cell.payload (m.heap.cell_alloc_self _)⟩

/-- Writing a value makes a new text and changes nothing else. -/
theorem settle_encode (m : Machine) (v : Value) :
    ∃ text m', (settle (Value.encode v)).run.run m = (.ok text, m') ∧ m'.status = .ok ∧
      m'.config = m.config ∧ m.heap.Grows m'.heap ∧
      m'.heap.payload text = .text false (.ofList (m.heap.json m.config.jsonMaxDepth v)) :=
  ⟨_, _, settle_ok rfl, rfl, rfl, m.heap.grows_alloc _,
    congrArg Cell.payload (m.heap.cell_alloc_self _)⟩

end ValueMachine
