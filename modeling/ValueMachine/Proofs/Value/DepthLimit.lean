import ValueMachine.Proofs.Json.Integers
import ValueMachine.Proofs.Value.Decoding

/-!
# One limit for both ways through JSON

Reading counts the brackets around each other, writing counts the levels of values: a scalar inside
as many arrays and objects as the limit is read, but written as a mark.

Results:
* `throughJson_of_shows`: a tree of integers comes back with marks below the limit;
* `throughJson_decode`: so does what was read from a text, where only scalars can be below the limit; if
  there are none it comes back as it is.
-/

namespace ValueMachine.Json

/-! ## Cut documents -/

mutual

/-- The document with a mark for what is inside `levels` arrays and objects. -/
def Document.cut : Document → (levels : Nat) → Document
  | _, 0 => .text depthMark
  | .array items, levels + 1 => .array (cutItems items levels)
  | .object members, levels + 1 => .object (cutMembers members levels)
  | d, _ + 1 => d

def cutItems : List Document → (levels : Nat) → List Document
  | [], _ => []
  | item :: items, levels => item.cut levels :: cutItems items levels

def cutMembers : List (String × Document) → (levels : Nat) → List (String × Document)
  | [], _ => []
  | (name, document) :: members, levels => (name, document.cut levels) :: cutMembers members levels

end

/-- The document has no more levels of values than given. -/
inductive Document.Fits : (levels : Nat) → Document → Prop
  | null {levels : Nat} : Fits (levels + 1) .null
  | bool {levels : Nat} (b : Bool) : Fits (levels + 1) (.bool b)
  | number {levels : Nat} (x : Float) : Fits (levels + 1) (.number x)
  | text {levels : Nat} (content : String) : Fits (levels + 1) (.text content)
  | array {levels : Nat} {items : List Document} (each : ∀ item ∈ items, item.Fits levels) :
    Fits (levels + 1) (.array items)
  | object {levels : Nat} {members : List (String × Document)}
    (each : ∀ member ∈ members, member.2.Fits levels) : Fits (levels + 1) (.object members)

/-- Every number of the document has a property. -/
inductive Document.EveryNumber (P : Float → Prop) : Document → Prop
  | null : EveryNumber P .null
  | bool (b : Bool) : EveryNumber P (.bool b)
  | number {x : Float} (holds : P x) : EveryNumber P (.number x)
  | text (content : String) : EveryNumber P (.text content)
  | array {items : List Document} (each : ∀ item ∈ items, item.EveryNumber P) :
    EveryNumber P (.array items)
  | object {members : List (String × Document)} (each : ∀ member ∈ members, member.2.EveryNumber P) :
    EveryNumber P (.object members)

theorem cutItems_eq (items : List Document) (levels : Nat) :
    cutItems items levels = items.map (·.cut levels) := by
  induction items with
  | nil => rfl
  | cons item items ih => rw [cutItems, ih, List.map_cons]

theorem cutMembers_eq (members : List (String × Document)) (levels : Nat) :
    cutMembers members levels = members.map (Prod.map id (·.cut levels)) := by
  induction members with
  | nil => rfl
  | cons member members ih => rw [cutMembers, ih, List.map_cons]; rfl

theorem Document.Fits.cut_eq {levels : Nat} {d : Document} (fits : d.Fits levels) :
    d.cut levels = d := by
  induction fits with
  | null | bool | number | text => rfl
  | array each ih => rw [cut, cutItems_eq, List.map_congr_left ih, List.map_id']
  | @object levels members each ih =>
    have same : ∀ member ∈ members, Prod.map id (·.cut levels) member = member :=
      fun member mem => Prod.ext rfl (ih member mem)
    rw [cut, cutMembers_eq, List.map_congr_left same, List.map_id']

/-- Members that are merged away make no document higher. -/
theorem Document.height_merged_le (d : Document) : d.merged.height ≤ d.height := by
  induction d using Document.induct with
  | array items ih =>
    rw [merged, mergedItems_eq, height, height]
    refine Nat.succ_le_succ (heightItems_le (List.forall_mem_map.mpr fun item mem => ?_))
    exact (ih item mem).trans (height_le_heightItems mem)
  | object members ih =>
    rw [merged, mergedMembers_eq, height, height]
    refine Nat.succ_le_succ (heightMembers_le fun member mem => ?_)
    obtain ⟨source, hs, rfl⟩ := List.mem_map.mp ((Listing.ofPairs_subperm _).subset mem)
    exact (ih source hs).trans (height_le_heightMembers hs)
  | _ => exact Nat.le_refl 0

theorem Document.height_cut_le (d : Document) : ∀ levels, (d.cut levels).height ≤ levels := by
  induction d using Document.induct with
  | array items ih =>
    rintro (_ | levels)
    · exact Nat.zero_le _
    · rw [cut, height, cutItems_eq]
      refine Nat.succ_le_succ (heightItems_le (List.forall_mem_map.mpr ?_))
      exact fun item mem => ih item mem levels
  | object members ih =>
    rintro (_ | levels)
    · exact Nat.zero_le _
    · rw [cut, height, cutMembers_eq]
      exact Nat.succ_le_succ
        (heightMembers_le (List.forall_mem_map.mpr fun member mem => ih member mem levels))
  | _ => rintro (_ | levels) <;> exact Nat.zero_le _

section Regular

variable {number? : NumberText → Option Float} {d : Document}

theorem Document.IsRegular.cut (regular : d.IsRegular number?) :
    ∀ levels, (d.cut levels).IsRegular number? := by
  induction regular with
  | null => rintro (_ | levels); exacts [.text _, .null]
  | bool b => rintro (_ | levels); exacts [.text _, .bool b]
  | number readsBack => rintro (_ | levels); exacts [.text _, .number readsBack]
  | text content => rintro (_ | levels) <;> exact .text _
  | array each ih =>
    rintro (_ | levels)
    · exact .text _
    · rw [Document.cut, cutItems_eq]
      exact .array (List.forall_mem_map.mpr fun item mem => ih item mem levels)
  | @object members distinct each ih =>
    rintro (_ | levels)
    · exact .text _
    · rw [Document.cut, cutMembers_eq]
      refine .object ?_ (List.forall_mem_map.mpr fun member mem => ih member mem levels)
      rw [List.map_map]
      exact distinct

/-- Merged documents are regular if their numbers are read back. -/
theorem Document.EveryNumber.isRegular_merged (every : d.EveryNumber (ReadsBack number?)) :
    d.merged.IsRegular number? := by
  induction every with
  | null => exact .null
  | bool b => exact .bool b
  | number holds => exact .number holds
  | text content => exact .text content
  | array each ih =>
    rw [merged, mergedItems_eq]
    exact .array (List.forall_mem_map.mpr ih)
  | object each ih =>
    rw [merged, mergedMembers_eq]
    refine .object (nodup_ofPairs _) fun member mem => ?_
    obtain ⟨source, hs, rfl⟩ := List.mem_map.mp ((Listing.ofPairs_subperm _).subset mem)
    exact ih source hs

theorem Document.EveryNumber.mono {P Q : Float → Prop} (every : d.EveryNumber P)
    (imp : ∀ x, P x → Q x) : d.EveryNumber Q := by
  induction every with
  | null => exact .null
  | bool b => exact .bool b
  | number holds => exact .number (imp _ holds)
  | text content => exact .text content
  | array each ih => exact .array ih
  | object each ih => exact .object ih

/-- A number is spelt by characters of numbers and blanks only. -/
theorem Spells.numerals {x : Float} {text : List Char} (spells : Spells number? (.number x) text) :
    ∀ c ∈ text, isNumeral c = true ∨ isBlank c = true := by
  generalize eq : Document.number x = d at spells
  induction spells with
  | blanks blank _ blank' ih =>
    intro c mem
    rcases List.mem_append.mp mem with mem | mem
    · exact .inr (blank c mem)
    rcases List.mem_append.mp mem with mem | mem
    · exact ih eq c mem
    · exact .inr (blank' c mem)
  | number is => exact fun c mem => .inl (is.numerals c mem)
  | _ => cases eq

/-- What is read back is finite. -/
theorem ReadsBack.isFinite {x : Float} (readsBack : ReadsBack number? x) : x.isFinite = true := by
  have absent {c : Char} (notNumeral : isNumeral c = false) (notBlank : isBlank c = false)
      (mem : c ∈ Number.general x Number.standardPrecision) : False := by
    rcases readsBack.numerals c mem with is | is <;> simp_all
  cases reading : Number.read x with
  | nan =>
    rw [Number.general, reading] at absent
    exact (absent (c := 'n') (by decide) (by decide) (by decide)).elim
  | infinite negative =>
    rw [Number.general, reading] at absent
    exact (absent (c := 'i') (by decide) (by decide) (by cases negative <;> decide)).elim
  | finite negative mantissa exponent =>
    exact Number.isFinite_iff.mpr ⟨negative, mantissa, exponent, reading⟩

end Regular

end ValueMachine.Json

namespace ValueMachine

open Json (Document IsInteger IsReader NumberText ReadsIntegers Spells)

/-! ## Trees that are shown -/

theorem mem_zip_zip {α β γ : Type} {l : List α} {l' : List β} {l'' : List γ} {i : Nat}
    (h : i < l.length) (h' : i < l'.length) (h'' : i < l''.length) :
    (l[i], l'[i], l''[i]) ∈ l.zip (l'.zip l'') := by
  have lt : i < (l.zip (l'.zip l'')).length := by
    rw [List.length_zip, List.length_zip]; omega
  refine List.mem_of_getElem (h := lt) ?_
  rw [List.getElem_zip, List.getElem_zip]

/-- A value shows one tree only. -/
theorem Shows.unique {h : Heap} {w : Value} {d d' : Document} {addresses addresses' : List Nat}
    (shown : Shows h w d addresses) (shown' : Shows h w d' addresses') : d = d' := by
  induction shown generalizing d' addresses' with
  | null payload | bool payload | number payload | text payload =>
    cases shown' <;> simp_all
  | @array address items documents addresses payload length length' each ih =>
    cases shown' with
    | @array _ items' documents' addresses' payload' length₂ length₂' each' =>
      obtain rfl : items = items' := Payload.array.inj (payload.symm.trans payload')
      refine congrArg _ (List.ext_getElem (length.symm.trans length₂) fun i lt lt' => ?_)
      exact ih _ (mem_zip_zip (by omega) lt (by omega)) (each' _ (mem_zip_zip (by omega) lt' (by omega)))
    | _ => simp_all
  | @object address fields members addresses payload names length each ih =>
    cases shown' with
    | @object _ fields' members' addresses' payload' names' length' each' =>
      obtain rfl : fields = fields' := Payload.object.inj (payload.symm.trans payload')
      have lengths := length_eq_of_fst_eq names
      have lengths' := length_eq_of_fst_eq names'
      refine congrArg _ (List.ext_getElem (lengths.symm.trans lengths') fun i lt lt' => Prod.ext ?_ ?_)
      · have same := names.symm.trans names'
        have := List.getElem_of_eq same (by rw [List.length_map]; exact lt)
        rwa [List.getElem_map, List.getElem_map] at this
      · exact ih _ (mem_zip_zip (by omega) lt (by omega))
          (each' _ (mem_zip_zip (by omega) lt' (by omega)))
    | _ => simp_all

theorem unfold_succ {h : Heap} {w : Value} {p : Payload} (payload : h.payload w = p)
    (no : p.isBox = false) (levels : Nat) (path : List Value) :
    h.unfold (levels + 1) path w = h.unfoldContent (h.unfold levels) path w := by
  rw [Heap.unfold, Heap.content_of_not_isBox (payload ▸ no)]

/-- The cells of an element are not around it. -/
theorem nodup_part {address : Nat} {addresses : List (List Nat)} {path : List Value}
    (new : (address :: addresses.flatten).Nodup)
    (others : ∀ a ∈ address :: addresses.flatten, Value.cell a ∉ path) {part : List Nat}
    (mem : part ∈ addresses) :
    part.Nodup ∧ ∀ a ∈ part, Value.cell a ∉ Value.cell address :: path := by
  obtain ⟨notInside, inside⟩ := List.nodup_cons.mp new
  refine ⟨(List.nodup_flatten.mp inside).1 part mem, fun a ha => ?_⟩
  have below : a ∈ addresses.flatten := List.mem_flatten.mpr ⟨part, mem, ha⟩
  rw [List.mem_cons, not_or]
  refine ⟨?_, others a (List.mem_cons_of_mem address below)⟩
  rintro ⟨⟩
  exact notInside below

/-- The tree that is written for a value which shows a document. The addresses of its cells are not
those of what is around it. -/
theorem Shows.unfold_eq {h : Heap} {w : Value} {d : Document} {addresses : List Nat}
    {number? : NumberText → Option Float} (shown : Shows h w d addresses)
    (regular : d.IsRegular number?) (new : addresses.Nodup) :
    ∀ levels path, (∀ address ∈ addresses, Value.cell address ∉ path) →
      h.unfold levels path w = d.cut levels := by
  induction shown with
  | null payload | bool payload | text payload =>
    rintro (_ | levels) path _
    · rfl
    · rw [unfold_succ payload rfl, Heap.unfoldContent, payload]
      rfl
  | number payload =>
    rintro (_ | levels) path _
    · rfl
    · cases regular with | number readsBack =>
      rw [unfold_succ payload rfl, Heap.unfoldContent, payload]
      exact if_pos readsBack.isFinite
  | @array address items documents addresses payload length length' each ih =>
    rintro (_ | levels) path others
    · rfl
    · cases regular with | array regular =>
      rw [unfold_succ payload rfl, Heap.unfoldContent, payload]
      dsimp only
      rw [if_neg (others address List.mem_cons_self), Document.cut, Json.cutItems_eq]
      refine congrArg _ (List.ext_getElem (by simpa using length) fun i lt lt' => ?_)
      rw [List.length_map] at lt lt'
      obtain ⟨nodup, outside⟩ := nodup_part new others (List.getElem_mem (length' ▸ lt'))
      rw [List.getElem_map, List.getElem_map]
      exact ih _ (mem_zip_zip lt lt' (length' ▸ lt')) (regular _ (List.getElem_mem lt')) nodup levels _
        outside
  | @object address fields members addresses payload names length each ih =>
    have lengths := length_eq_of_fst_eq names
    rintro (_ | levels) path others
    · rfl
    · cases regular with | object distinct regular =>
      rw [unfold_succ payload rfl, Heap.unfoldContent, payload]
      dsimp only
      rw [if_neg (others address List.mem_cons_self), Document.cut, Json.cutMembers_eq]
      refine congrArg _ (List.ext_getElem (by simpa using lengths) fun i lt lt' => ?_)
      rw [List.length_map] at lt lt'
      obtain ⟨nodup, outside⟩ := nodup_part new others (List.getElem_mem (length ▸ lt'))
      have name := List.getElem_of_eq names (by rw [List.length_map]; exact lt)
      rw [List.getElem_map, List.getElem_map] at name ⊢
      exact Prod.ext name (ih _ (mem_zip_zip lt lt' (length ▸ lt')) (regular _ (List.getElem_mem lt'))
        nodup levels _ outside)

/-! ## Round trips -/

/-- A value that shows a tree comes back through JSON as the tree with marks below the limit. -/
theorem throughJson_of_shows (m : Machine) {number? : NumberText → Option Float}
    (reader : IsReader m.heap.outside.document? number?) {w : Value} {d : Document}
    {addresses : List Nat} (shown : Shows m.heap w d addresses) (regular : d.IsRegular number?)
    (new : addresses.Nodup) :
    ∃ w' m' addresses', (throughJson w).run.run m = (.ok w', m') ∧ m'.status = .ok ∧
      Shows m'.heap w' (d.cut m.config.jsonMaxDepth) addresses' := by
  obtain ⟨text, m₁, encoded, _, config, grows, payload⟩ := settle_encode m w
  have cut := regular.cut m.config.jsonMaxDepth
  have spells := Json.spells_write cut
  have written : (String.ofList (m.heap.json m.config.jsonMaxDepth w)).toList =
      (d.cut m.config.jsonMaxDepth).write := by
    rw [String.toList_ofList, m.heap.json_eq,
      shown.unfold_eq regular new _ [] fun _ _ => List.not_mem_nil]
  have shallow : Json.nesting (String.ofList (m.heap.json m.config.jsonMaxDepth w)).toList ≤
      m₁.config.jsonMaxDepth := by
    rw [written, Json.nesting_of_spells spells, config]
    exact d.height_cut_le _
  obtain ⟨d', reads, merged⟩ := reader.reads spells
  rw [← written, ← grows.outside_eq] at reads
  obtain ⟨w', m', addresses', decoded, ok, _, _, shown', _⟩ :=
    settle_decode_of_read m₁ payload shallow reads
  rw [merged, Json.merged_eq_self cut.hasDistinctNames] at shown'
  exact ⟨w', m', addresses', (Run.bind_ok encoded _).trans decoded, ok, shown'⟩

/-- A machine with a text in its first cell, and with a limit. -/
def withText (limit : Nat) (content : String) : Machine :=
  { Machine.start ⟨"linux", "2024-01-01 00:00:00", 0, 0.5⟩ [] with
    config := { Config.standard with jsonMaxDepth := limit }
    heap := .ofCells #[.ofPayload (.text false content)] }

theorem isInteger_one : IsInteger (Number.twoPow 53) 1 :=
  ⟨false, Number.twoPow 52, -52, 1, by decide +kernel, by decide +kernel, by decide⟩

/-- What is read from a text whose numbers are integers comes back through JSON, by whichever reader
reads integers as they are, with marks in place of what is inside as many arrays and objects as the
limit. Only scalars are, since arrays and objects do not nest deeper; if there are none, the tree comes
back as it was. -/
theorem throughJson_decode (m m₁ : Machine) {number? : NumberText → Option Float}
    (reader : IsReader m.heap.outside.document? number?)
    (exact : ReadsIntegers number? (Number.twoPow 53)) {text w : Value} {isStatic : Bool}
    {content : String} (payload : m.heap.payload text = .text isStatic content)
    (decoded : (settle (Value.decode text)).run.run m = (.ok w, m₁)) (accepted : m₁.status = .ok)
    (integers : ∀ d, Spells number? d content.toList →
      d.EveryNumber (IsInteger (Number.twoPow 53))) :
    ∃ d w' m₂ addresses addresses', Spells number? d content.toList ∧
      Shows m₁.heap w d.merged addresses ∧ d.merged.height ≤ m.config.jsonMaxDepth ∧
      (throughJson w).run.run m₁ = (.ok w', m₂) ∧ m₂.status = .ok ∧
      Shows m₂.heap w' (d.merged.cut m.config.jsonMaxDepth) addresses' ∧
      (d.merged.Fits m.config.jsonMaxDepth → d.merged.cut m.config.jsonMaxDepth = d.merged) := by
  obtain ⟨_, _, decoded', status⟩ := settle_decode m payload
  cases decoded.symm.trans decoded'
  rw [accepted] at status
  obtain ⟨shallow, d', reads⟩ := readStatus_eq_ok_iff.mp status.symm
  obtain ⟨d, spells, merged⟩ := reader.spelled reads
  obtain ⟨_, _, addresses, decoded', _, config, grows, shown, new⟩ :=
    settle_decode_of_read m payload shallow reads
  cases decoded.symm.trans decoded'
  rw [← merged] at shown
  have readsBack := (integers d spells).mono fun _ => Json.readsBack_of_isInteger exact (by decide)
  rw [← grows.outside_eq] at reader
  obtain ⟨w', m₂, addresses', run, ok, shown'⟩ :=
    throughJson_of_shows m₁ reader shown readsBack.isRegular_merged new.nodup
  rw [config] at shown'
  have height : d.merged.height ≤ m.config.jsonMaxDepth := by
    refine d.height_merged_le.trans ?_
    rwa [← Json.nesting_of_spells spells]
  exact ⟨d, w', m₂, addresses, addresses', spells, shown, height, run, ok, shown',
    fun fits => fits.cut_eq⟩

/-- A number in an array is read, but not written, if one array is the limit. -/
theorem throughJson_decode_boundary :
    let m := withText 1 "[1]"
    let number? := NumberText.value? .strict
    ∃ (d : Document) (w w' : Value) (m₁ m₂ : Machine) (addresses : List Nat),
      IsReader m.heap.outside.document? number? ∧ ReadsIntegers number? (Number.twoPow 53) ∧
      Spells number? d "[1]".toList ∧ d.EveryNumber (IsInteger (Number.twoPow 53)) ∧
      (settle (Value.decode (.cell 0))).run.run m = (.ok w, m₁) ∧ m₁.status = .ok ∧
      Shows m₁.heap w d addresses ∧
      (throughJson w).run.run m₁ = (.ok w', m₂) ∧ m₂.status = .ok ∧
      ∀ addresses', ¬Shows m₂.heap w' d addresses' := by
  intro m number?
  have reads : m.heap.outside.document? "[1]".toList = some (.array [.number 1]) := by rfl
  have integers : Document.EveryNumber (IsInteger (Number.twoPow 53)) (.array [.number 1]) :=
    .array (List.forall_mem_singleton.mpr (.number isInteger_one))
  have exact := Json.readsIntegers_value?
  have readsBack := integers.mono fun _ => Json.readsBack_of_isInteger exact (by decide)
  have shallow : Json.nesting "[1]".toList ≤ m.config.jsonMaxDepth := by decide
  have payload : m.heap.payload (.cell 0) = .text false "[1]" := rfl
  obtain ⟨w, m₁, addresses, decoded, ok, config, grows, shown, new⟩ :=
    settle_decode_of_read m payload shallow reads
  have reader : IsReader m.heap.outside.document? number? := Json.isReader_read?
  have reader' := reader
  rw [← grows.outside_eq] at reader'
  obtain ⟨w', m₂, addresses', run, ok', shown'⟩ :=
    throughJson_of_shows m₁ reader' shown readsBack.isRegular_merged new.nodup
  rw [config] at shown'
  refine ⟨_, w, w', m₁, m₂, addresses, reader, exact, Json.read?_eq_some_iff.mp reads, integers,
    decoded, ok, shown, run, ok', ?_⟩
  intro addresses₂ same
  -- the text of the mark is not a number
  have differ := shown'.unique same
  cases differ

/-- Empty arrays at the limit, and an object that names a member twice. -/
def nestedText : String := "[[], \x7b\"a\": 1, \"b\": 2, \"a\": 3\x7d, [1]]"

def nestedDocument : Document :=
  .array [.array [], .object [("a", .number 1), ("b", .number 2), ("a", .number 3)],
    .array [.number 1]]

theorem throughJson_decode_nested :
    let m := withText 2 nestedText
    let number? := NumberText.value? .strict
    ∃ (w : Value) (m₁ : Machine),
      IsReader m.heap.outside.document? number? ∧ ReadsIntegers number? (Number.twoPow 53) ∧
      m.heap.payload (.cell 0) = .text false nestedText ∧
      (settle (Value.decode (.cell 0))).run.run m = (.ok w, m₁) ∧ m₁.status = .ok ∧
      (∀ d, Spells number? d nestedText.toList → d.EveryNumber (IsInteger (Number.twoPow 53))) ∧
      ∃ d w' m₂ addresses addresses', Spells number? d nestedText.toList ∧
        Shows m₁.heap w d.merged addresses ∧ d.merged.height ≤ m.config.jsonMaxDepth ∧
        (throughJson w).run.run m₁ = (.ok w', m₂) ∧ m₂.status = .ok ∧
        Shows m₂.heap w' (d.merged.cut m.config.jsonMaxDepth) addresses' ∧
        (d.merged.Fits m.config.jsonMaxDepth → d.merged.cut m.config.jsonMaxDepth = d.merged) := by
  intro m number?
  have reads : Document.read? nestedText.toList = some nestedDocument := by rfl
  have shallow : Json.nesting nestedText.toList ≤ m.config.jsonMaxDepth := by decide
  have integers : ∀ d, Spells number? d nestedText.toList →
      d.EveryNumber (IsInteger (Number.twoPow 53)) := by
    intro d spells
    cases reads.symm.trans (Json.read?_eq_some_iff.mpr spells)
    have one : Document.EveryNumber (IsInteger (Number.twoPow 53)) (.number 1) :=
      .number isInteger_one
    have two : Document.EveryNumber (IsInteger (Number.twoPow 53)) (.number 2) :=
      .number ⟨false, Number.twoPow 52, -51, 2, by decide +kernel, by decide +kernel, by decide⟩
    have three : Document.EveryNumber (IsInteger (Number.twoPow 53)) (.number 3) :=
      .number ⟨false, 3 * Number.twoPow 51, -51, 3, by decide +kernel, by decide +kernel, by decide⟩
    refine .array (List.forall_mem_cons.mpr ⟨.array fun _ mem => absurd mem List.not_mem_nil,
      List.forall_mem_cons.mpr ⟨.object ?_, List.forall_mem_singleton.mpr
        (.array (List.forall_mem_singleton.mpr one))⟩⟩)
    exact List.forall_mem_cons.mpr ⟨one, List.forall_mem_cons.mpr ⟨two,
      List.forall_mem_singleton.mpr three⟩⟩
  have payload : m.heap.payload (.cell 0) = .text false nestedText := rfl
  have reader : IsReader m.heap.outside.document? number? := Json.isReader_read?
  obtain ⟨w, m₁, _, decoded, ok, _⟩ := settle_decode_of_read m payload shallow reads
  exact ⟨w, m₁, reader, Json.readsIntegers_value?, payload, decoded, ok, integers,
    throughJson_decode m m₁ reader Json.readsIntegers_value? payload decoded ok integers⟩

end ValueMachine
