import ValueMachine.Proofs.Json.Members
import ValueMachine.Proofs.Machine.Running
import ValueMachine.Proofs.Number.Nearest
import ValueMachine.Proofs.Value.Unfolding
import ValueMachine.Value.Json

/-!
# Values through JSON and back

Results:
* `builds`: the value of a document shows the document, merged;
* `throughJson_shows`: a value that is written as JSON and read back is the tree of the value.
-/

namespace ValueMachine

open Json (Document IsReader NumberText)
open Value (ofDocument ofDocuments ofMembers)

/-! ## Values that are trees -/

/-- A value is the given tree, node by node, with the members of objects in their order. The
addresses are those of its arrays and objects, as often as they occur. -/
inductive Shows (h : Heap) : Value → Document → (addresses : List Nat) → Prop
  | null {w : Value} (payload : h.payload w = .null) : Shows h w .null []
  | bool {w : Value} {b : Bool} (payload : h.payload w = .bool b) : Shows h w (.bool b) []
  | number {w : Value} {x : Float} (payload : h.payload w = .number x) : Shows h w (.number x) []
  | text {w : Value} {isStatic : Bool} {content : String}
    (payload : h.payload w = .text isStatic content) : Shows h w (.text content) []
  | array {address : Nat} {items : Array Value} {documents : List Document}
    {addresses : List (List Nat)} (payload : h.payload (.cell address) = .array items)
    (length : items.toList.length = documents.length)
    (length' : documents.length = addresses.length)
    (each : ∀ p ∈ items.toList.zip (documents.zip addresses), Shows h p.1 p.2.1 p.2.2) :
    Shows h (.cell address) (.array documents) (address :: addresses.flatten)
  | object {address : Nat} {fields : Table Value} {members : List (String × Document)}
    {addresses : List (List Nat)} (payload : h.payload (.cell address) = .object fields)
    (names : fields.toList.map Prod.fst = members.map Prod.fst)
    (length : members.length = addresses.length)
    (each : ∀ p ∈ fields.toList.zip (members.zip addresses), Shows h p.1.2 p.2.1.2 p.2.2) :
    Shows h (.cell address) (.object members) (address :: addresses.flatten)

theorem Shows.mono {h h' : Heap} (grows : h.Grows h') {w : Value} {d : Document}
    {addresses : List Nat} (shown : Shows h w d addresses) : Shows h' w d addresses := by
  have kept : ∀ {w : Value} {p : Payload}, h.payload w = p → p ≠ .undefined → h'.payload w = p := by
    rintro w p rfl ne
    exact grows.payload_eq ne
  induction shown with
  | null payload => exact .null (kept payload nofun)
  | bool payload => exact .bool (kept payload nofun)
  | number payload => exact .number (kept payload nofun)
  | text payload => exact .text (kept payload nofun)
  | array payload length length' _ ih => exact .array (kept payload nofun) length length' ih
  | object payload names length _ ih => exact .object (kept payload nofun) names length ih

theorem Shows.payload_of_number {h : Heap} {w : Value} {x : Float} {addresses : List Nat}
    (shown : Shows h w (.number x) addresses) : h.payload w = .number x := by
  cases shown with
  | number payload => exact payload

/-- The addresses are those of different cells between two bounds. -/
structure AreNew (low high : Nat) (addresses : List Nat) : Prop where
  nodup : addresses.Nodup
  bounds : ∀ address ∈ addresses, low ≤ address ∧ address < high

theorem areNew_nil (low high : Nat) : AreNew low high [] := ⟨.nil, nofun⟩

theorem AreNew.append {low middle high : Nat} {front rear : List Nat}
    (new : AreNew low middle front)
    (new' : AreNew middle high rear) (le : low ≤ middle) (le' : middle ≤ high) :
    AreNew low high (front ++ rear) := by
  refine ⟨List.nodup_append.mpr ⟨new.nodup, new'.nodup, fun a mem b mem' => ?_⟩, fun a mem => ?_⟩
  · have := new.bounds a mem
    have := new'.bounds b mem'
    omega
  · rcases List.mem_append.mp mem with mem | mem
    · have := new.bounds a mem
      omega
    · have := new'.bounds a mem
      omega

theorem AreNew.mono {low low' high : Nat} {addresses : List Nat} (new : AreNew low' high addresses)
    (le : low ≤ low') : AreNew low high addresses :=
  ⟨new.nodup, fun a mem => ⟨Nat.le_trans le (new.bounds a mem).1, (new.bounds a mem).2⟩⟩

/-- The next cell comes after those that were new before it. -/
theorem AreNew.cons {low high : Nat} {addresses : List Nat} (new : AreNew low high addresses)
    (le : low ≤ high) : AreNew low (high + 1) (high :: addresses) := by
  refine ⟨List.nodup_cons.mpr ⟨fun mem => ?_, new.nodup⟩, fun a mem => ?_⟩
  · exact absurd (new.bounds high mem).2 (Nat.lt_irrefl high)
  · rcases List.mem_cons.mp mem with rfl | mem
    · omega
    · have := new.bounds a mem
      omega

theorem AreNew.subperm {low high : Nat} {addresses others : List Nat}
    (new : AreNew low high addresses) (sub : others.Subperm addresses) : AreNew low high others := by
  obtain ⟨l, perm, sublist⟩ := sub
  exact ⟨perm.nodup_iff.mp (new.nodup.sublist sublist),
    fun a mem => new.bounds a (sublist.subset (perm.mem_iff.mpr mem))⟩

/-! ## The value of a document -/

/-- Making the value of a document adds cells and answers a value that is the document, merged as
tables merge pairs, where every array and object has a new cell of its own. -/
def Builds (d : Document) : Prop := ∀ (config : Config) (h : Heap),
  h.Grows ((ofDocument d).perform config h).2 ∧ ∃ addresses,
    Shows ((ofDocument d).perform config h).2 ((ofDocument d).perform config h).1 d.merged addresses ∧
    AreNew h.size ((ofDocument d).perform config h).2.size addresses

/-- The small integer of a number is the number. -/
theorem ofInt_of_ofSmall? {x : Float} {v : Value} (small : Value.ofSmall? x = some v) :
    ∃ n, v = .small n ∧ Number.ofInt n = x := by
  rw [Value.ofSmall?] at small
  split at small
  · next accepted =>
    cases small
    simp only [Bool.and_eq_true, Bool.not_eq_true', Bool.and_eq_false_iff, decide_eq_true_eq,
      beq_eq_false_iff_ne] at accepted
    obtain ⟨⟨⟨whole, notMinusZero⟩, low⟩, high⟩ := accepted
    refine ⟨_, rfl, Number.ofInt_toInt64 whole ?_ ?_⟩
    · rintro ⟨zero, minus⟩
      rcases notMinusZero with ne | plus
      · exact ne zero
      · rw [minus] at plus; cases plus
    · have two52 : Number.twoPow 52 = 4503599627370496 := rfl
      rw [smallest] at low
      rw [largest] at high
      omega
  · cases small

/-- A number is found where it was put, be it in a handle or in a cell. -/
theorem builds_number (x : Float) : Builds (.number x) := by
  intro config h
  have eq : ofDocument (.number x) = Value.ofNumber x := by rw [ofDocument]
  rw [eq, Value.ofNumber]
  cases small : Value.ofSmall? x with
  | none =>
    exact ⟨h.grows_alloc _, [], .number (congrArg Cell.payload (h.cell_alloc_self _)), areNew_nil _ _⟩
  | some v =>
    obtain ⟨n, rfl, same⟩ := ofInt_of_ofSmall? small
    exact ⟨.refl h, [], .number (congrArg Payload.number same), areNew_nil _ _⟩

theorem perform_ofDocuments_cons (item : Document) (items : List Document) (config : Config)
    (h : Heap) :
    (ofDocuments (item :: items)).perform config h =
      (((ofDocument item).perform config h).1 ::
        ((ofDocuments items).perform config ((ofDocument item).perform config h).2).1,
      ((ofDocuments items).perform config ((ofDocument item).perform config h).2).2) := by
  rw [ofDocuments]
  rfl

/-- The members of an object get the values of their documents. -/
theorem perform_ofMembers (members : List (String × Document)) (config : Config) : ∀ h : Heap,
    (ofMembers members).perform config h =
      ((members.map Prod.fst).zip ((ofDocuments (members.map Prod.snd)).perform config h).1,
      ((ofDocuments (members.map Prod.snd)).perform config h).2) := by
  induction members with
  | nil => intro h; rfl
  | cons member members ih =>
    intro h
    obtain ⟨name, document⟩ := member
    have step : (ofMembers ((name, document) :: members)).perform config h =
        ((name, ((ofDocument document).perform config h).1) ::
          ((ofMembers members).perform config ((ofDocument document).perform config h).2).1,
        ((ofMembers members).perform config ((ofDocument document).perform config h).2).2) := by
      rw [ofMembers]; rfl
    rw [step, ih, List.map_cons, List.map_cons, perform_ofDocuments_cons, List.zip_cons_cons]

/-- The values of a list of documents. -/
theorem builds_all {items : List Document} (each : ∀ item ∈ items, Builds item) (config : Config) :
    ∀ h : Heap, h.Grows ((ofDocuments items).perform config h).2 ∧
      ((ofDocuments items).perform config h).1.length = items.length ∧
      ∃ addresses : List (List Nat), items.length = addresses.length ∧
        (∀ p ∈ ((ofDocuments items).perform config h).1.zip
            ((items.map Document.merged).zip addresses),
          Shows ((ofDocuments items).perform config h).2 p.1 p.2.1 p.2.2) ∧
        AreNew h.size ((ofDocuments items).perform config h).2.size addresses.flatten := by
  induction items with
  | nil => intro h; exact ⟨.refl h, rfl, [], rfl, nofun, areNew_nil _ _⟩
  | cons item items ih =>
    intro h
    obtain ⟨grows, front, first, new⟩ := each item List.mem_cons_self config h
    have others := fun d mem => each d (List.mem_cons_of_mem item mem)
    obtain ⟨grows', length, rear, length', shown, new'⟩ :=
      ih others ((ofDocument item).perform config h).2
    rw [perform_ofDocuments_cons]
    refine ⟨grows.trans grows', congrArg (· + 1) length, front :: rear, congrArg (· + 1) length',
      fun p mem => ?_, new.append new' grows.size_le grows'.size_le⟩
    rcases List.mem_cons.mp mem with rfl | mem
    · exact first.mono grows'
    · exact shown p mem

theorem builds_text (content : String) : Builds (.text content) := by
  intro config h
  rw [ofDocument]
  exact ⟨h.grows_alloc _, [], .text (congrArg Cell.payload (h.cell_alloc_self _)), areNew_nil _ _⟩

/-- The cell of an array comes after those of its elements. -/
theorem builds_array {items : List Document} (each : ∀ item ∈ items, Builds item) :
    Builds (.array items) := by
  intro config h
  obtain ⟨grows, length, addresses, length', shown, new⟩ := builds_all each config h
  generalize made : (ofDocuments items).perform config h = pair at grows length shown new
  have step : (ofDocument (.array items)).perform config h =
      pair.2.alloc (.ofPayload (.array pair.1.toArray)) := by
    rw [ofDocument, ← made]; rfl
  have grows' := pair.2.grows_alloc (.ofPayload (.array pair.1.toArray))
  rw [step, Document.merged, Json.mergedItems_eq]
  refine ⟨grows.trans grows', pair.2.size :: addresses.flatten, ?_, ?_⟩
  · refine .array (congrArg Cell.payload (Heap.cell_alloc_self _ _)) ?_ ?_ ?_
    · rw [List.length_map]; exact length
    · rw [List.length_map]; exact length'
    · exact fun p mem => (shown p mem).mono grows'
  · rw [Heap.size_alloc]
    exact new.cons grows.size_le

/-- What becomes of the members of an object: their values, documents and addresses are merged
alike. -/
theorem shows_ofPairs {h : Heap} {address : Nat} {fields : Table Value} {names : List String}
    {values : List Value} {documents : List Document} {addresses : List (List Nat)}
    (payload : h.payload (.cell address) = .object fields)
    (list : fields.toList = Listing.ofPairs (names.zip values))
    (length : names.length = values.length) (length' : values.length = documents.length)
    (length'' : documents.length = addresses.length)
    (each : ∀ p ∈ values.zip (documents.zip addresses), Shows h p.1 p.2.1 p.2.2) :
    ∃ others, others.Subperm addresses.flatten ∧
      Shows h (.cell address) (.object (Listing.ofPairs (names.zip documents)))
        (address :: others) := by
  let rows := names.zip (values.zip (documents.zip addresses))
  have firsts : (values.zip (documents.zip addresses)).map Prod.fst = values :=
    List.map_fst_zip (by rw [List.length_zip]; omega)
  have seconds : (values.zip (documents.zip addresses)).map Prod.snd = documents.zip addresses :=
    List.map_snd_zip (by rw [List.length_zip]; omega)
  have middles : (values.zip (documents.zip addresses)).map (Prod.fst ∘ Prod.snd) = documents := by
    rw [← List.map_map, seconds, List.map_fst_zip (Nat.le_of_eq length'')]
  have lasts : rows.map (Prod.snd ∘ Prod.snd ∘ Prod.snd) = addresses := by
    rw [← List.map_map, ← List.map_map, List.map_snd_zip (by rw [List.length_zip]; simp; omega),
      seconds, List.map_snd_zip (Nat.le_of_eq length''.symm)]
  have listed : fields.toList = (Listing.ofPairs rows).map (Prod.map id Prod.fst) := by
    rw [list, Listing.map_ofPairs, ← List.zip_map_right, firsts]
  have merged : Listing.ofPairs (names.zip documents) =
      (Listing.ofPairs rows).map (Prod.map id (Prod.fst ∘ Prod.snd)) := by
    rw [Listing.map_ofPairs, ← List.zip_map_right, middles]
  have sub := Listing.ofPairs_subperm rows
  refine ⟨((Listing.ofPairs rows).map (Prod.snd ∘ Prod.snd ∘ Prod.snd)).flatten, ?_, ?_⟩
  · obtain ⟨l, perm, sublist⟩ := sub
    rw [← lasts]
    exact ⟨_, (perm.map _).flatten, (sublist.map _).flatten⟩
  · rw [merged]
    refine .object payload ?_ ?_ fun p mem => ?_
    · rw [listed, List.map_map, List.map_map]; rfl
    · rw [List.length_map, List.length_map]
    · rw [listed, List.zip_map', List.zip_map'] at mem
      obtain ⟨row, hrow, rfl⟩ := List.mem_map.mp mem
      exact each row.2 (List.of_mem_zip (sub.subset hrow)).2

/-- The cell of an object comes after those of its members. -/
theorem builds_object {members : List (String × Document)}
    (each : ∀ member ∈ members, Builds member.2) : Builds (.object members) := by
  intro config h
  have documents : ∀ d ∈ members.map Prod.snd, Builds d := List.forall_mem_map.mpr each
  obtain ⟨grows, length, addresses, length', shown, new⟩ := builds_all documents config h
  generalize made : (ofDocuments (members.map Prod.snd)).perform config h = pair
    at grows length shown new
  let fields := Table.ofList config.hashThreshold ((members.map Prod.fst).zip pair.1)
  have step : (ofDocument (.object members)).perform config h =
      pair.2.alloc (.ofPayload (.object fields)) := by
    have entries := perform_ofMembers members config h
    rw [made] at entries
    rw [ofDocument]
    show (Value.ofEntries ((ofMembers members).perform config h).1).perform config
      ((ofMembers members).perform config h).2 = _
    rw [entries]
    rfl
  have grows' := pair.2.grows_alloc (.ofPayload (.object fields))
  have merged : Document.merged (.object members) = .object (Listing.ofPairs
      ((members.map Prod.fst).zip ((members.map Prod.snd).map Document.merged))) := by
    rw [Document.merged, Json.mergedMembers_eq, List.map_map, List.zip_map']
    rfl
  have payload : (pair.2.alloc (.ofPayload (.object fields))).2.payload (.cell pair.2.size) =
      .object fields := congrArg Cell.payload (Heap.cell_alloc_self _ _)
  obtain ⟨others, sub, shows⟩ := shows_ofPairs payload
    (Table.toList_ofList_eq config.hashThreshold _) (by rw [length, List.length_map, List.length_map])
    (length.trans (List.length_map _).symm) ((List.length_map _).trans length')
    fun p mem => (shown p mem).mono grows'
  rw [step, merged]
  refine ⟨grows.trans grows', pair.2.size :: others, shows, ?_⟩
  rw [Heap.size_alloc]
  exact (new.subperm sub).cons grows.size_le

/-- The value of a document is the document, merged. -/
theorem builds (d : Document) : Builds d := by
  induction d using Document.induct with
  | null => intro config h; rw [ofDocument]; exact ⟨.refl h, [], .null rfl, areNew_nil _ _⟩
  | bool b => intro config h; rw [ofDocument]; exact ⟨.refl h, [], .bool rfl, areNew_nil _ _⟩
  | number x => exact builds_number x
  | text content => exact builds_text content
  | array items ih => exact builds_array ih
  | object members ih => exact builds_object ih

/-! ## The round trip -/

/-- A text is refused if it has too many brackets around each other or no tree. -/
theorem decode_run {config : Config} {h : Heap} {text : Value} {isStatic : Bool} {content : String}
    (payload : h.payload text = .text isStatic content) :
    HeapM.perform (Value.decode text).run config h =
      HeapM.perform (ExceptT.run (if config.jsonMaxDepth < Json.nesting content.toList then
          failNull (.argument "parseJSON" "nesting too deep") .object
        else match h.outside.document? content.toList with
          | some d => ofDocument d
          | none => failNull (.argument "parseJSON" "invalid JSON format") .object)) config h := by
  have content_eq := perform_require Payload.text? config
    (congrArg Payload.text? payload) "parseJSON" "argument must be a string" (Value.nullOf .object)
  have config_eq : HeapM.perform (ExceptT.run (read : Attempt Config)) config h =
      (.ok config, h) := rfl
  have heap_eq : HeapM.perform (ExceptT.run (get : Attempt Heap)) config h = (.ok h, h) := rfl
  unfold Value.decode
  refine (Attempt.bind_ok content_eq _).trans ((Attempt.bind_ok config_eq _).trans ?_)
  split
  · rfl
  · refine (Attempt.bind_ok heap_eq _).trans ?_
    cases h.outside.document? content.toList <;> rfl

/-- A text that reads as a document, at a depth within the limit, becomes the value of the
document. -/
theorem decode_eq {config : Config} {h : Heap} {text : Value} {isStatic : Bool} {content : String}
    {d : Document} (payload : h.payload text = .text isStatic content)
    (shallow : Json.nesting content.toList ≤ config.jsonMaxDepth)
    (reads : h.outside.document? content.toList = some d) :
    HeapM.perform (Value.decode text).run config h =
      (.ok ((ofDocument d).perform config h).1, ((ofDocument d).perform config h).2) := by
  rw [decode_run payload, if_neg (Nat.not_lt.mpr shallow), reads]
  rfl

/-- Writes a value as JSON and reads the text. -/
def throughJson (v : Value) : Run Value := do
  let text ← settle (Value.encode v)
  settle (Value.decode text)

/-- A value that is written as JSON and read back, by whichever reader of JSON, is the tree of the
value. -/
theorem throughJson_shows (m : Machine) {number? : NumberText → Option Float}
    (reader : IsReader m.heap.outside.document? number?) (v : Value)
    (acyclic : m.heap.HasNoBoxCycle v) (numbers : m.heap.HasExactNumbers v) :
    ∃ (d : Document) (w : Value) (m' : Machine) (addresses : List Nat),
      (∀ d', Unfolds m.heap m.config.jsonMaxDepth [] v d' ↔ d' = d) ∧
      (throughJson v).run.run m = (.ok w, m') ∧ m'.status = .ok ∧
      Shows m'.heap w d addresses ∧ AreNew m.heap.size m'.heap.size addresses ∧
      m.heap.Grows m'.heap := by
  have tree : ∀ d', Unfolds m.heap m.config.jsonMaxDepth [] v d' ↔
      d' = m.heap.unfold m.config.jsonMaxDepth [] v := fun d' => unfolds_iff acyclic (Nat.zero_le _)
  have written := m.heap.json_eq m.config.jsonMaxDepth v
  have unfolds := (tree _).mpr rfl
  generalize m.heap.unfold m.config.jsonMaxDepth [] v = d at tree written unfolds
  have regular := unfolds.isRegular reader numbers
  have spells := Json.spells_write regular
  -- the text is a new cell, and the value read from it is made of further ones
  let cell := Cell.ofPayload (.text false (.ofList (m.heap.json m.config.jsonMaxDepth v)))
  have encoded : (settle (Value.encode v)).run.run m = (.ok (.cell m.heap.size),
      { m with heap := (m.heap.alloc cell).2, status := .ok }) := settle_ok rfl
  have payload : (m.heap.alloc cell).2.payload (.cell m.heap.size) =
      .text false (.ofList d.write) :=
    written ▸ congrArg Cell.payload (m.heap.cell_alloc_self cell)
  have content : (String.ofList d.write).toList = d.write := String.toList_ofList
  have shallow : Json.nesting (String.ofList d.write).toList ≤ m.config.jsonMaxDepth := by
    rw [content, Json.nesting_of_spells spells]
    exact unfolds.height_le
  obtain ⟨d', reads, merged⟩ := reader.reads spells
  rw [Json.merged_eq_self regular.hasDistinctNames] at merged
  rw [← content] at reads
  have decoded := settle_ok (m := { m with heap := (m.heap.alloc cell).2, status := .ok })
    (decode_eq payload shallow reads)
  obtain ⟨grows, addresses, shown, new⟩ := builds d' m.config (m.heap.alloc cell).2
  rw [merged] at shown
  let made := (ofDocument d').perform m.config (m.heap.alloc cell).2
  refine ⟨d, made.1, { m with heap := made.2, status := .ok }, addresses, tree, ?_, rfl, shown,
    new.mono (m.heap.grows_alloc cell).size_le, (m.heap.grows_alloc cell).trans grows⟩
  rw [throughJson, Run.bind_ok encoded]
  exact decoded

/-- An array that holds an object twice and itself, a box around a number and an error. -/
def tangle : Heap :=
  .ofCells #[.ofPayload (.array #[.cell 1, .cell 1, .cell 0, .cell 2, .cell 4]),
    .ofPayload (.object (.ofList 8 [("back\n", .cell 0), ("none", .undefined)])),
    ⟨.number, .counted, .box (.cell 3)⟩,
    .ofPayload (.number 0.5),
    .ofPayload (.extension (.error ⟨"lost", 3, "Error"⟩))]

theorem throughJson_shows_tangle :
    let host : Host := ⟨"linux", "2024-01-01 00:00:00", 0, 0.5⟩
    let m : Machine := { Machine.start host [] with heap := tangle }
    IsReader m.heap.outside.document? (NumberText.value? .strict) ∧
      m.heap.HasNoBoxCycle (.cell 0) ∧ m.heap.HasExactNumbers (.cell 0) ∧
      ∃ (d : Document) (w : Value) (m' : Machine) (addresses : List Nat),
        (∀ d', Unfolds m.heap m.config.jsonMaxDepth [] (.cell 0) d' ↔ d' = d) ∧
        (throughJson (.cell 0)).run.run m = (.ok w, m') ∧ m'.status = .ok ∧
        Shows m'.heap w d addresses ∧ AreNew m.heap.size m'.heap.size addresses ∧
        m.heap.Grows m'.heap := by
  intro host m
  have graph : ∀ u, tangle.Reaches Payload.parts (.cell 0) u →
      u ∈ [.cell 0, .cell 1, .cell 2, .cell 3, .cell 4, .undefined] :=
    fun u reached => reached.mem_of_closed (by decide) (by decide)
  have acyclic : m.heap.HasNoBoxCycle (.cell 0) := by
    intro u reached circle
    obtain ⟨w, box, others⟩ := Relation.TransGen.head'_iff.mp circle
    have isBox : (tangle.payload u).isBox = true := by
      rw [show tangle.payload u = .box w from box]; rfl
    have only : ∀ u ∈ [.cell 0, .cell 1, .cell 2, .cell 3, .cell 4, .undefined],
        (tangle.payload u).isBox = true → u = .cell 2 := by decide
    obtain rfl := only u (graph u reached) isBox
    cases box
    rcases others.cases_head with eq | ⟨_, box, _⟩
    · cases eq
    · cases box
  have numbers : m.heap.HasExactNumbers (.cell 0) := by
    intro u x reached payload _
    have only : ∀ u ∈ [.cell 0, .cell 1, .cell 2, .cell 3, .cell 4, .undefined],
        ∀ x ∈ (tangle.payload u).number?, x = 0.5 := by decide
    have half : x = 0.5 := only u (graph u reached) x (by
      rw [show tangle.payload u = .number x from payload]; rfl)
    rw [half]
    show Document.read? (Number.general 0.5 Number.standardPrecision) = some (.number 0.5)
    rfl
  exact ⟨Json.isReader_read?, acyclic, numbers,
    throughJson_shows m Json.isReader_read? (.cell 0) acyclic numbers⟩

end ValueMachine
