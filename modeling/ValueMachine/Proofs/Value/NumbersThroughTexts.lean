import ValueMachine.Proofs.Json.GeneralForm
import ValueMachine.Proofs.Json.Nesting
import ValueMachine.Proofs.Number.PlainText
import ValueMachine.Proofs.Value.Decoding
import ValueMachine.Value.Coercion

/-!
# Numbers through texts and back

A number is turned to a text of 16 significant digits, by the conversion to texts as well as in
JSON. That is one digit less than what tells all doubles apart. So the text gives the number back
only if the number is the nearest one to a decimal of 16 digits; else it gives another number, or an
infinity where the decimal is beyond all doubles.

Results:
* `numbers_through_texts`: what comes back from the text of a number, and when it is the number.
-/

namespace ValueMachine

open Json (Document IsReader IsRounding NumberText)
open Number (allDigits general nearestDecimal shortened standardPrecision tenPow twoPow)

/-! ## Numbers in the heap -/

/-- A number that was made is found. -/
theorem payload_ofNumber (x : Float) (config : Config) (h : Heap) :
    ((Value.ofNumber x).perform config h).2.payload ((Value.ofNumber x).perform config h).1 =
      .number x := by
  obtain ⟨_, addresses, shown, _⟩ := builds_number x config h
  rw [Value.ofDocument] at shown
  replace shown : Shows _ _ (.number x) addresses := shown
  generalize ((Value.ofNumber x).perform config h).1 = w at shown ⊢
  cases shown with
  | number payload => exact payload

section Texts

theorem standardPrecision_pos : 0 < standardPrecision := by decide

theorem standardPrecision_le : standardPrecision ≤ allDigits := by decide

variable {h : Heap} {v : Value} {x : Float}

theorem display_of_number (number : h.payload v = .number x) :
    h.display v = .ofList (Number.plain x) := by
  have notBox : (h.payload v).isBox = false := by rw [number]; rfl
  rw [Heap.display, Heap.contentPayload, Heap.content_of_not_isBox notBox, number]

theorem json_of_number (number : h.payload v = .number x) (finite : x.isFinite = true)
    {limit : Nat} (some : 0 < limit) : h.json limit v = general x standardPrecision := by
  have notBox : (h.payload v).isBox = false := by rw [number]; rfl
  obtain ⟨limit, rfl⟩ := Nat.exists_eq_add_one.mpr some
  rw [Heap.json, Encoder.write]
  dsimp only
  rw [Heap.content_of_not_isBox notBox, number]
  dsimp only
  rw [if_pos finite]
  simp [Encoder.put, Encoder.start]

/-- A text of a finite number is read as what is left of the number. -/
theorem perform_toNum_general {text : Value} (config : Config)
    (strict : Number.IsStrict h.outside.numeral?) (finite : x.isFinite = true)
    (payload : h.payload text = .text false (.ofList (general x standardPrecision))) :
    HeapM.perform (Value.toNum text).run config h =
      (.ok ((Value.ofNumber (shortened x standardPrecision)).perform config h).1,
        ((Value.ofNumber (shortened x standardPrecision)).perform config h).2) := by
  have heap : HeapM.perform (ExceptT.run (get : Attempt Heap)) config h = (.ok h, h) := rfl
  obtain ⟨c, rest, eq, _⟩ := Json.numerals_general finite standardPrecision_pos standardPrecision_le
  have some : ¬(String.ofList (general x standardPrecision)).isEmpty = true := by
    rw [eq]
    simp [String.isEmpty_iff]
  have whole : Number.readStrict? h.outside.numeral? (Text.trimStart (general x standardPrecision)) =
      Option.some (shortened x standardPrecision) := by
    rw [Json.trimStart_general finite standardPrecision_pos standardPrecision_le,
      ← Json.numeral?_general strict finite standardPrecision_pos standardPrecision_le, eq]
    rfl
  rw [Value.toNum, Attempt.bind_payloadOf, payload]
  dsimp only
  rw [if_neg some, Attempt.bind_ok heap, String.toList_ofList, whole]
  rfl

end Texts

/-! ## Through texts -/

/-- Converts a value to a text and the text to a number. -/
def throughText (v : Value) : Run Value := do
  let text ← Value.toStr v
  settle (Value.toNum text)

section Through

variable {m : Machine} {number? : NumberText → Option Float} {v : Value} {x : Float}

/-- The text of a number is the general form of the number. -/
theorem run_toStr_of_number (number : m.heap.payload v = .number x) (finite : x.isFinite = true) :
    (Value.toStr v).run.run m = (.ok (.cell m.heap.size),
      { m with
        heap := (m.heap.alloc (.ofPayload
          (.text false (.ofList (general x standardPrecision))))).2
        status := .ok }) := by
  have display : m.heap.display v = .ofList (general x standardPrecision) := by
    rw [display_of_number number, Number.plain_eq_general finite]
  have written : HeapM.perform (Value.ofDisplay v).run m.config m.heap =
      (.ok (.cell m.heap.size), (m.heap.alloc (.ofPayload (.text false (m.heap.display v)))).2) := rfl
  rw [display] at written
  rw [Value.toStr, Run.bind_payloadOf, number]
  exact settle_ok written

theorem throughText_ends (strict : Number.IsStrict m.heap.outside.numeral?)
    (number : m.heap.payload v = .number x) (finite : x.isFinite = true) :
    (throughText v).Ends m
      (fun w m' => m'.status = .ok ∧ m'.heap.payload w = .number (shortened x standardPrecision))
      fun _ _ => False := by
  let cell := Cell.ofPayload (.text false (.ofList (general x standardPrecision)))
  have payload : (m.heap.alloc cell).2.payload (.cell m.heap.size) =
      .text false (.ofList (general x standardPrecision)) :=
    congrArg Cell.payload (m.heap.cell_alloc_self cell)
  have read := settle_ok (m := { m with heap := (m.heap.alloc cell).2, status := .ok })
    (perform_toNum_general m.config strict finite payload)
  unfold Run.Ends
  rw [throughText, Run.bind_ok (run_toStr_of_number number finite), read]
  exact ⟨rfl, payload_ofNumber _ _ _⟩

/-- How a text is refused that has no tree. -/
def notJson : Fault := .argument "parseJSON" "invalid JSON format"

/-- What a value becomes that is written as JSON and read back, by the tree of its text. -/
theorem throughJson_ends {text : List Char}
    (json : m.heap.json m.config.jsonMaxDepth v = text)
    (shallow : Json.nesting text ≤ m.config.jsonMaxDepth) :
    (throughJson v).Ends m
      (fun w m' => match m.heap.outside.document? text with
        | some d => m'.status = .ok ∧ ∃ addresses, Shows m'.heap w d.merged addresses
        | none => m'.status = notJson.status ∧ m'.heap.payload w = .null)
      fun _ _ => False := by
  obtain ⟨written, m', encoded, _, config, grows, payload⟩ := settle_encode m v
  have content : (String.ofList text).toList = text := String.toList_ofList
  rw [json] at payload
  rw [← content, ← config] at shallow
  rw [throughJson, Run.ends_bind]
  apply Run.Ends.of_eq encoded
  rw [← content, ← grows.outside_eq]
  cases read : m'.heap.outside.document? (String.ofList text).toList with
  | some d =>
    obtain ⟨w, _, addresses, decoded, ok, _, _, shown, _⟩ :=
      settle_decode_of_read m' payload shallow read
    exact .of_eq decoded ⟨ok, addresses, shown⟩
  | none =>
    obtain ⟨w, _, decoded, refused, null⟩ := settle_decode_of_unread m' payload shallow read
    exact .of_eq decoded ⟨refused, null⟩

/-- Where no level is left, the mark is written instead of a number. -/
theorem throughJson_mark_ends (reader : IsReader m.heap.outside.document? number?)
    (flat : m.config.jsonMaxDepth = 0) :
    (throughJson v).Ends m
      (fun w m' => m'.status = .ok ∧ (m'.heap.payload w).text? = some depthMark)
      fun _ _ => False := by
  have marked : m.heap.json m.config.jsonMaxDepth v = (Document.text depthMark).write := by
    rw [flat, Heap.json, Encoder.write]
    simp [Encoder.putQuoted, Encoder.put, Encoder.start, Document.write]
  have spells : Json.Spells number? (.text depthMark) (Document.text depthMark).write :=
    Json.spells_write (.text depthMark)
  have shallow : Json.nesting (Document.text depthMark).write ≤ m.config.jsonMaxDepth :=
    (Json.nesting_of_spells spells).le.trans (Nat.zero_le _)
  obtain ⟨d, reads, merged⟩ := reader.reads spells
  refine (throughJson_ends marked shallow).mono fun w m' ends => ?_
  rw [reads] at ends
  dsimp only at ends
  rw [merged] at ends
  obtain ⟨ok, addresses, shown⟩ := ends
  replace shown : Shows m'.heap w (.text depthMark) addresses := shown
  cases shown with
  | text payload =>
    refine ⟨ok, ?_⟩
    rw [payload]
    rfl

/-- What a finite number becomes that is written as JSON and read back. -/
theorem throughJson_number_ends (reader : IsReader m.heap.outside.document? number?)
    (rounding : IsRounding number?) (number : m.heap.payload v = .number x)
    (finite : x.isFinite = true) :
    (throughJson v).Ends m
      (fun w m' =>
        if m.config.jsonMaxDepth = 0 then
          m'.status = .ok ∧ (m'.heap.payload w).text? = some depthMark
        else if (shortened x standardPrecision).isInf then
          m'.status = notJson.status ∧ m'.heap.payload w = .null
        else m'.status = .ok ∧ m'.heap.payload w = .number (shortened x standardPrecision))
      fun _ _ => False := by
  by_cases flat : m.config.jsonMaxDepth = 0
  · simp only [if_pos flat]
    exact throughJson_mark_ends reader flat
  · have json := json_of_number number finite (Nat.pos_of_ne_zero flat)
    have shallow : Json.nesting (general x standardPrecision) ≤ m.config.jsonMaxDepth :=
      (Json.nesting_general finite standardPrecision_pos standardPrecision_le).le.trans
        (Nat.zero_le _)
    have read := reader.read?_general rounding finite standardPrecision_pos standardPrecision_le
    refine (throughJson_ends json shallow).mono fun w m' ends => ?_
    rw [if_neg flat]
    rw [read] at ends
    by_cases infinite : (shortened x standardPrecision).isInf = true
    · rw [if_pos infinite] at ends ⊢
      exact ends
    · rw [if_neg infinite] at ends ⊢
      obtain ⟨ok, addresses, shown⟩ := ends
      replace shown : Shows m'.heap w (.number (shortened x standardPrecision)) addresses := shown
      cases shown with
      | number payload => exact ⟨ok, payload⟩

/-! ## Which numbers come back -/

/-- A finite number comes back from its text, by whichever readers round correctly, as the double
nearest to a decimal of 16 digits, one of those nearest to the number. In JSON a limit on depth of zero
leaves no room for it, and a decimal beyond all doubles is refused. The number itself comes back if it
is such a decimal, or else if it is the nearest double to some decimal of 16 digits, at least where the
doubles on both sides are equally far. -/
theorem numbers_through_texts (m : Machine) {number? : NumberText → Option Float}
    (strict : Number.IsStrict m.heap.outside.numeral?)
    (reader : IsReader m.heap.outside.document? number?) (rounding : IsRounding number?)
    {v : Value} {x : Float} (number : m.heap.payload v = .number x) (finite : x.isFinite = true) :
    let back := shortened x standardPrecision
    (throughText v).Ends m (fun w m' => m'.status = .ok ∧ m'.heap.payload w = .number back)
      (fun _ _ => False) ∧
    (throughJson v).Ends m
      (fun w m' =>
        if m.config.jsonMaxDepth = 0 then
          m'.status = .ok ∧ (m'.heap.payload w).text? = some depthMark
        else if back.isInf then m'.status = notJson.status ∧ m'.heap.payload w = .null
        else m'.status = .ok ∧ m'.heap.payload w = .number back)
      (fun _ _ => False) ∧
    ∀ negative mantissa exponent, Number.read x = .finite negative mantissa exponent →
      (∃ (d : ℕ) (k : ℤ), d < tenPow standardPrecision ∧ back = nearestDecimal negative d k ∧
        ∀ (d' : ℕ) (k' : ℤ), d' < tenPow standardPrecision →
          |(mantissa : ℚ) * 2 ^ exponent - d * 10 ^ k| ≤
            |(mantissa : ℚ) * 2 ^ exponent - d' * 10 ^ k'|) ∧
      (∀ (d : ℕ) (k : ℤ), d < tenPow standardPrecision →
        (mantissa : ℚ) * 2 ^ exponent = d * 10 ^ k → back = x) ∧
      (mantissa ≠ twoPow 52 ∨ exponent = -1074 →
        (back = x ↔ ∃ (d : ℕ) (k : ℤ), d < tenPow standardPrecision ∧
          nearestDecimal negative d k = x)) := by
  refine ⟨throughText_ends strict number finite,
    throughJson_number_ends reader rounding number finite, ?_⟩
  intro negative mantissa exponent h
  refine ⟨?_, fun d k few exact => ?_, fun inside => ?_⟩
  · exact Number.exists_nearestDecimal h standardPrecision_pos
  · exact Number.shortened_of_exact h standardPrecision_pos few exact
  · exact Number.shortened_eq_iff h standardPrecision_pos inside

/-- The greatest finite number. -/
def greatest : Float := Number.ofMagnitude false (Number.infinityBits - 1)

/-- A tenth, the sum of a tenth and a fifth, and the greatest number. -/
def fractions : Machine :=
  { Machine.start ⟨"linux", "2024-01-01 00:00:00", 0, 0.5⟩ [] with
    heap := .ofCells #[.ofPayload (.number 0.1), .ofPayload (.number (0.1 + 0.2)),
      .ofPayload (.number greatest)] }

/-- A tenth comes back. -/
theorem numbers_through_texts_tenth :
    Number.IsStrict fractions.heap.outside.numeral? ∧
      IsReader fractions.heap.outside.document? (NumberText.value? .strict) ∧
      IsRounding (NumberText.value? .strict) ∧
      fractions.heap.payload (.cell 0) = .number 0.1 ∧ (0.1 : Float).isFinite = true ∧
      (throughText (.cell 0)).Ends fractions
        (fun w m' => m'.status = .ok ∧ m'.heap.payload w = .number 0.1) (fun _ _ => False) ∧
      (throughJson (.cell 0)).Ends fractions
        (fun w m' => m'.status = .ok ∧ m'.heap.payload w = .number 0.1) (fun _ _ => False) := by
  have strict : Number.IsStrict fractions.heap.outside.numeral? := Number.isStrict_readWhole?
  have reader : IsReader fractions.heap.outside.document? (NumberText.value? .strict) :=
    Json.isReader_read?
  have rounding := Json.isRounding_value?
  have finite : (0.1 : Float).isFinite = true := by decide +kernel
  have h : Number.read 0.1 = .finite false 7205759403792794 (-56) := by decide +kernel
  obtain ⟨text, json, which⟩ :=
    numbers_through_texts fractions strict reader rounding (v := .cell 0) rfl finite
  have back : shortened 0.1 standardPrecision = 0.1 :=
    ((which _ _ _ h).2.2 (.inl (by decide))).mpr ⟨1, -1, by decide, by decide +kernel⟩
  rw [back] at text json
  have bounded : ¬(0.1 : Float).isInf = true := by decide +kernel
  have deep : ¬fractions.config.jsonMaxDepth = 0 := by decide
  simp only [if_neg bounded, if_neg deep] at json
  exact ⟨strict, reader, rounding, rfl, finite, text, json⟩

/-- The sum of a tenth and a fifth comes back as another number, and the greatest number as an
infinity or not at all, although the readers round correctly. -/
theorem sum_through_texts :
    Number.IsStrict fractions.heap.outside.numeral? ∧
      IsReader fractions.heap.outside.document? (NumberText.value? .strict) ∧
      IsRounding (NumberText.value? .strict) ∧
      (0.1 + 0.2 : Float).isFinite = true ∧ (0.3 : Float) ≠ 0.1 + 0.2 ∧
      fractions.heap.payload (.cell 1) = .number (0.1 + 0.2) ∧
      (throughText (.cell 1)).Ends fractions
        (fun w m' => m'.status = .ok ∧ m'.heap.payload w = .number 0.3) (fun _ _ => False) ∧
      (throughJson (.cell 1)).Ends fractions
        (fun w m' => m'.status = .ok ∧ m'.heap.payload w = .number 0.3) (fun _ _ => False) ∧
      (throughText (.cell 2)).Ends fractions
        (fun w m' => (m'.heap.payload w).number?.map Float.isInf = some true) (fun _ _ => False) ∧
      (throughJson (.cell 2)).Ends fractions
        (fun w m' => m'.status = notJson.status ∧ m'.heap.payload w = .null)
        (fun _ _ => False) := by
  have strict : Number.IsStrict fractions.heap.outside.numeral? := Number.isStrict_readWhole?
  have reader : IsReader fractions.heap.outside.document? (NumberText.value? .strict) :=
    Json.isReader_read?
  have rounding := Json.isRounding_value?
  have finite : (0.1 + 0.2 : Float).isFinite = true := by decide +kernel
  have finite' : greatest.isFinite = true := by decide +kernel
  have back : shortened (0.1 + 0.2) standardPrecision = 0.3 := by decide +kernel
  have beyond : (shortened greatest standardPrecision).isInf = true := by decide +kernel
  have bounded : ¬(0.3 : Float).isInf = true := by decide +kernel
  have deep : ¬fractions.config.jsonMaxDepth = 0 := by decide
  have sum : fractions.heap.payload (.cell 1) = .number (0.1 + 0.2) := rfl
  have last : fractions.heap.payload (.cell 2) = .number greatest := rfl
  -- nothing else matters of the machine, so that it need not be run
  generalize fractions = m at strict reader deep sum last ⊢
  have text := throughText_ends strict sum finite
  have json := throughJson_number_ends reader rounding sum finite
  have text' := throughText_ends strict last finite'
  have json' := throughJson_number_ends reader rounding last finite'
  rw [back] at text json
  simp only [beyond, if_neg bounded, if_neg deep, if_pos] at json json'
  refine ⟨strict, reader, rounding, finite, by decide +kernel, sum, text, json,
    text'.mono fun w m' ends => ?_, json'⟩
  rw [ends.2]
  exact congrArg some beyond

end Through

end ValueMachine
