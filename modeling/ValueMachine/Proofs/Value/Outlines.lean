import ValueMachine.Machine
import ValueMachine.Printing.Layout
import ValueMachine.Proofs.Value.Encoding

/-!
# Printing and encoding unfold a value alike

The outline of a value is its graph unfolded into a tree, with marks of their own for what lies too
deep and for an array or object inside itself. A document and a printed text are two ways to write
an outline. The encoder and the printer walk through the graph each with a stack of its own. The
printer looks whether a container is empty before it looks for it on the stack, which changes
nothing: a container that is on the stack holds something.

Results:
* `outlines_iff`: if boxes do not hold each other in a circle, a value has one outline;
* `Heap.write_layout`: the printer writes it;
* `renderNested_json`: both texts of a value are written from its outline.
-/

namespace ValueMachine

open Json (Document)

/-! ## Outlines -/

inductive Outline where
  /-- What lies too deep. -/
  | cut
  /-- An array or object inside itself. -/
  | circular
  /-- A value that holds no others. -/
  | leaf (p : Payload)
  | array (items : List Outline)
  | object (fields : List (String × Outline))

/-- The document of a value that holds no others. -/
def Payload.leafDocument : Payload → Document
  | .number x => if x.isFinite then .number x else .null
  | .bool b => .bool b
  | .text _ content => .text content
  | .extension e => .text e.typeName
  | _ => .null

/-- The printed text of a value that holds no others. -/
def Payload.leafText : Payload → List Char
  | .number x => Number.tidy x
  | .bool b => (if b then "true" else "false").toList
  | .null => "null".toList
  | .undefined => "undef".toList
  | .text _ content => Printing.quoted content
  | .extension e => e.typeName.toList ++ Printing.braced (Printing.extensionFields e)
  | .function _ => "Function".toList
  | _ => []

/-- Rows with commas between them. -/
def Printing.listed (rows : List (List Char)) : List Char := List.intercalate ", ".toList rows

/-- Rows in braces, with blanks inside them. -/
def Printing.inBraces : List (List Char) → List Char
  | [] => ['\x7b', '\x7d']
  | rows => ['\x7b', ' '] ++ listed rows ++ [' ', '\x7d']

namespace Outline

mutual

/-- What an outline is in JSON. -/
def document : Outline → Document
  | .cut => .text depthMark
  | .circular => .text circularMark
  | .leaf p => p.leafDocument
  | .array items => .array (itemDocuments items)
  | .object fields => .object (fieldDocuments fields)

def itemDocuments : List Outline → List Document
  | [] => []
  | item :: items => item.document :: itemDocuments items

def fieldDocuments : List (String × Outline) → List (String × Document)
  | [] => []
  | (key, item) :: fields => (key, item.document) :: fieldDocuments fields

end

mutual

/-- What an outline is in print. -/
def text : Outline → List Char
  | .cut => "[...]".toList
  | .circular => "[Circular]".toList
  | .leaf p => p.leafText
  | .array items => '[' :: (Printing.listed (itemTexts items) ++ [']'])
  | .object fields => Printing.inBraces (fieldTexts fields)

def itemTexts : List Outline → List (List Char)
  | [] => []
  | item :: items => item.text :: itemTexts items

def fieldTexts : List (String × Outline) → List (List Char)
  | [] => []
  | (key, item) :: fields => (key.toList ++ ": ".toList ++ item.text) :: fieldTexts fields

end

theorem itemDocuments_eq (items : List Outline) : itemDocuments items = items.map document := by
  induction items with
  | nil => rfl
  | cons item items ih => rw [itemDocuments, ih, List.map_cons]

theorem fieldDocuments_eq (fields : List (String × Outline)) :
    fieldDocuments fields = fields.map fun field => (field.1, field.2.document) := by
  induction fields with
  | nil => rfl
  | cons field fields ih => rw [fieldDocuments, ih, List.map_cons]

theorem itemTexts_eq (items : List Outline) : itemTexts items = items.map text := by
  induction items with
  | nil => rfl
  | cons item items ih => rw [itemTexts, ih, List.map_cons]

theorem fieldTexts_eq (fields : List (String × Outline)) :
    fieldTexts fields = fields.map fun field => field.1.toList ++ ": ".toList ++ field.2.text := by
  induction fields with
  | nil => rfl
  | cons field fields ih => rw [fieldTexts, ih, List.map_cons]

theorem text_array (items : List Outline) :
    (array items).text = '[' :: (Printing.listed (items.map text) ++ [']']) := by
  rw [← itemTexts_eq]; rfl

theorem text_object (fields : List (String × Outline)) :
    (object fields).text = Printing.inBraces
      (fields.map fun field => field.1.toList ++ ": ".toList ++ field.2.text) := by
  rw [← fieldTexts_eq]; rfl

end Outline

/-- The outline of a value at a place where the arrays and objects of the path are around it, the
innermost one first. -/
inductive Outlines (h : Heap) (limit : Nat) : (path : List Value) → Value → Outline → Prop
  | cut {path : List Value} {v : Value} (full : limit ≤ path.length) : Outlines h limit path v .cut
  | circular {path : List Value} {v : Value} (room : path.length < limit)
    (is : (h.payload v).isContainer = true) (mem : v ∈ path) : Outlines h limit path v .circular
  /-- A box stands for its content and adds no level. -/
  | box {path : List Value} {v content : Value} {o : Outline} (room : path.length < limit)
    (payload : h.payload v = .box content) (inside : Outlines h limit path content o) :
    Outlines h limit path v o
  | leaf {path : List Value} {v : Value} {p : Payload} (room : path.length < limit)
    (payload : h.payload v = p) (notContainer : p.isContainer = false)
    (notBox : p.isBox = false) : Outlines h limit path v (.leaf p)
  | array {path : List Value} {v : Value} {items : Array Value} {outlines : List Outline}
    (room : path.length < limit) (payload : h.payload v = .array items) (new : v ∉ path)
    (length : items.toList.length = outlines.length)
    (each : ∀ p ∈ items.toList.zip outlines, Outlines h limit (v :: path) p.1 p.2) :
    Outlines h limit path v (.array outlines)
  | object {path : List Value} {v : Value} {fields : Table Value}
    {outlines : List (String × Outline)} (room : path.length < limit)
    (payload : h.payload v = .object fields) (new : v ∉ path)
    (names : fields.toList.map Prod.fst = outlines.map Prod.fst)
    (each : ∀ p ∈ fields.toList.zip outlines, Outlines h limit (v :: path) p.1.2 p.2.2) :
    Outlines h limit path v (.object outlines)

namespace Heap

/-- The outline of a value that is no box, from those of its elements. -/
def outlineContent (h : Heap) (element : List Value → Value → Outline) (path : List Value)
    (v : Value) : Outline :=
  match h.payload v with
  | .array items =>
    if v ∈ path then .circular else .array (items.toList.map (element (v :: path)))
  | .object fields =>
    if v ∈ path then .circular
    else .object (fields.toList.map fun field => (field.1, element (v :: path) field.2))
  | p => .leaf p

/-- The outline of a value with at most `depth` levels. -/
def outline (h : Heap) : (depth : Nat) → (path : List Value) → Value → Outline
  | 0, _, _ => .cut
  | depth + 1, path, v => h.outlineContent (h.outline depth) path (h.content v)

end Heap

/-! ## One outline -/

section Acyclic

variable {h : Heap} {limit : Nat} {path : List Value} {v : Value} {o : Outline}

/-- An outline of the content of a value is one of the value. -/
theorem Outlines.of_follow (room : path.length < limit) (fuel : Nat) : ∀ v : Value,
    Outlines h limit path (h.follow fuel v) o → Outlines h limit path v o := by
  induction fuel with
  | zero => intro v outlines; exact outlines
  | succ fuel ih =>
    intro v outlines
    rw [Heap.follow] at outlines
    split at outlines
    · next content box => exact .box room box (ih content outlines)
    · exact outlines

/-- What is no box has an outline if its elements have. -/
theorem outlines_outlineContent {element : List Value → Value → Outline}
    (room : path.length < limit) (notBox : ∀ w, h.payload v ≠ .box w)
    (part : ∀ item ∈ (h.payload v).parts,
      Outlines h limit (v :: path) item (element (v :: path) item)) :
    Outlines h limit path v (h.outlineContent element path v) := by
  rw [Heap.outlineContent]
  cases payload : h.payload v with
  | box content => exact absurd payload (notBox content)
  | array items =>
    rw [payload] at part
    dsimp only
    by_cases mem : v ∈ path
    · rw [if_pos mem]; exact .circular room (by rw [payload]; rfl) mem
    · rw [if_neg mem]
      refine .array room payload mem (by rw [List.length_map]) fun p hp => ?_
      obtain ⟨inside, eq⟩ := mem_zip_map hp
      rw [eq]
      exact part p.1 inside
  | object fields =>
    rw [payload] at part
    dsimp only
    by_cases mem : v ∈ path
    · rw [if_pos mem]; exact .circular room (by rw [payload]; rfl) mem
    · rw [if_neg mem]
      refine .object room payload mem (by rw [List.map_map]; rfl) fun p hp => ?_
      obtain ⟨inside, eq⟩ := mem_zip_map hp
      rw [eq]
      exact part p.1.2 (List.mem_map_of_mem inside)
  | _ => exact .leaf room payload rfl rfl

/-- A value has an outline at every place. -/
theorem outlines_outline (levels : Nat) : ∀ (path : List Value) (v : Value), h.HasNoBoxCycle v →
    path.length + levels = limit → Outlines h limit path v (h.outline levels path v) := by
  induction levels with
  | zero => intro path v _ full; exact .cut (by omega)
  | succ levels ih =>
    intro path v acyclic eq
    have room : path.length < limit := by omega
    have acyclic' : h.HasNoBoxCycle (h.content v) := hasNoBoxCycle_follow _ v acyclic
    refine .of_follow room (h.size + 1) v ?_
    refine outlines_outlineContent room (Heap.payload_content_ne_box acyclic) fun item mem => ?_
    exact ih _ item (acyclic'.of_part mem) (by rw [List.length_cons]; omega)

theorem outline_of_lt (room : path.length < limit) (v : Value) :
    h.outline (limit - path.length) path v =
      h.outlineContent (h.outline (limit - (path.length + 1))) path (h.content v) := by
  rw [show limit - path.length = limit - (path.length + 1) + 1 by omega, Heap.outline]

/-- A value has no other outline at a place. -/
theorem Outlines.eq_outline (outlines : Outlines h limit path v o) (acyclic : h.HasNoBoxCycle v) :
    o = h.outline (limit - path.length) path v := by
  induction outlines with
  | cut full => rw [Nat.sub_eq_zero_of_le full, Heap.outline]
  | @circular path v room is mem =>
    rw [outline_of_lt room, Heap.content_of_isContainer is, Heap.outlineContent]
    cases payload : h.payload v with
    | array => exact (if_pos mem).symm
    | object => exact (if_pos mem).symm
    | _ => rw [payload] at is; cases is
  | @box path v content o room payload inside ih =>
    have part : content ∈ (h.payload v).parts := by
      rw [payload]; exact List.mem_singleton_self content
    rw [outline_of_lt room, Heap.content_of_box acyclic payload, ← outline_of_lt room]
    exact ih (acyclic.of_part part)
  | @leaf path v p room payload notContainer notBox =>
    rw [outline_of_lt room, Heap.content_of_not_isBox (payload ▸ notBox), Heap.outlineContent,
      payload]
    cases p <;> first | rfl | cases notContainer
  | @array path v items outlines room payload new length each ih =>
    have elements : outlines = items.toList.map
        (h.outline (limit - (path.length + 1)) (v :: path)) := by
      refine eq_map_of_zip length fun p hp => ih p hp (acyclic.of_part ?_)
      rw [payload]
      exact (List.of_mem_zip hp).1
    rw [outline_of_lt room, Heap.content_of_isContainer (by rw [payload]; rfl), Heap.outlineContent,
      payload]
    dsimp only
    rw [if_neg new, ← elements]
  | @object path v fields outlines room payload new names each ih =>
    have elements : outlines = fields.toList.map fun field =>
        (field.1, h.outline (limit - (path.length + 1)) (v :: path) field.2) := by
      refine eq_map_of_zip (length_eq_of_fst_eq names) fun p hp =>
        Prod.ext (fst_eq_of_mem_zip names hp) (ih p hp (acyclic.of_part ?_))
      rw [payload]
      exact List.mem_map_of_mem (List.of_mem_zip hp).1
    rw [outline_of_lt room, Heap.content_of_isContainer (by rw [payload]; rfl), Heap.outlineContent,
      payload]
    dsimp only
    rw [if_neg new, ← elements]

/-- A value has one outline at a place, the one that is computed. -/
theorem outlines_iff (acyclic : h.HasNoBoxCycle v) (le : path.length ≤ limit) :
    Outlines h limit path v o ↔ o = h.outline (limit - path.length) path v := by
  constructor
  · intro outlines
    exact outlines.eq_outline acyclic
  · rintro rfl
    exact outlines_outline _ path v acyclic (by omega)

end Acyclic

/-! ## In JSON -/

theorem mem_zip_map_right {α β γ : Type} {f : β → γ} {l : List α} {l' : List β} {p : α × γ}
    (mem : p ∈ l.zip (l'.map f)) : ∃ b, (p.1, b) ∈ l.zip l' ∧ f b = p.2 := by
  rw [List.zip_map_right] at mem
  obtain ⟨⟨a, b⟩, pair, rfl⟩ := List.mem_map.mp mem
  exact ⟨b, pair, rfl⟩

/-- The document of its outline is the tree that a value is encoded as. -/
theorem Outlines.unfolds {h : Heap} {limit : Nat} {path : List Value} {v : Value} {o : Outline}
    (outlines : Outlines h limit path v o) : Unfolds h limit path v o.document := by
  induction outlines with
  | cut full => exact .deep full
  | circular room is mem => exact .circular room is mem
  | box room payload inside ih => exact .box room payload ih
  | @leaf path v p room payload notContainer notBox =>
    rw [Outline.document]
    cases p with
    | undefined => exact .undefined room payload
    | null => exact .null room payload
    | bool b => exact .bool room payload
    | number x =>
      rw [Payload.leafDocument]
      by_cases finite : x.isFinite = true
      · rw [if_pos finite]; exact .number room payload finite
      · rw [if_neg finite]; exact .infinite room payload (Bool.eq_false_iff.mpr finite)
    | text isStatic content => exact .text room payload
    | extension e => exact .extension room payload
    | function c => exact .function room payload
    | array items => cases notContainer
    | object fields => cases notContainer
    | box content => cases notBox
  | array room payload new length each ih =>
    rw [Outline.document, Outline.itemDocuments_eq]
    refine .array room payload new (by rw [List.length_map, length]) fun p hp => ?_
    obtain ⟨item, pair, eq⟩ := mem_zip_map_right hp
    rw [← eq]
    exact ih (p.1, item) pair
  | object room payload new names each ih =>
    rw [Outline.document, Outline.fieldDocuments_eq]
    refine .object room payload new (by rw [List.map_map, names]; rfl) fun p hp => ?_
    obtain ⟨field, pair, eq⟩ := mem_zip_map_right hp
    rw [← eq]
    exact ih (p.1, field) pair

/-! ## In print -/

namespace Printing

theorem write_append (colors : Bool) (pieces pieces' : List Piece) :
    write colors (pieces ++ pieces') = write colors pieces ++ write colors pieces' :=
  List.flatMap_append

theorem write_cons (colors : Bool) (piece : Piece) (pieces : List Piece) :
    write colors (piece :: pieces) = piece.write colors ++ write colors pieces :=
  List.flatMap_cons

theorem write_commas (colors : Bool) (rows : List (List Piece)) :
    write colors (commas rows) = listed (rows.map (write colors)) := by
  induction rows with
  | nil => rfl
  | cons row rows ih =>
    cases rows with
    | nil => rw [commas, List.map_singleton, listed, List.intercalate_singleton]
    | cons next rows =>
      rw [commas, write_append, write_cons, ih]
      · rfl
      · exact List.cons_ne_nil _ _

theorem write_extensionPieces (e : Extension) :
    write false (extensionPieces e) = e.typeName.toList ++ braced (extensionFields e) := by
  rw [extensionPieces, write_cons, write_cons]
  exact congrArg (e.typeName.toList ++ ·) (List.append_nil _)

theorem write_array (depth : Nat) (rows : List (List Piece)) :
    write false (bracket depth "[" :: commas rows ++ [bracket depth "]"]) =
      '[' :: (listed (rows.map (write false)) ++ [']']) := by
  rw [List.cons_append, write_cons, write_append, write_commas]
  rfl

theorem write_object (depth : Nat) {rows : List (List Piece)} (some : rows ≠ []) :
    write false (bracket depth "\x7b" :: .plain [' '] :: commas rows ++
        [.plain [' '], bracket depth "\x7d"]) = inBraces (rows.map (write false)) := by
  rw [List.cons_append, List.cons_append, write_cons, write_cons, write_append, write_commas]
  cases rows with
  | nil => exact absurd rfl some
  | cons row rows => rfl

theorem isEmpty_items (items : Array Value) :
    items.isEmpty = true ↔ (Payload.array items).elements = [] := by
  rw [Array.isEmpty_iff, Payload.elements, Array.toList_eq_nil_iff]

theorem isEmpty_fields (fields : Table Value) :
    fields.isEmpty = true ↔ (Payload.object fields).elements = [] := by
  rw [Table.isEmpty, Table.size_eq, beq_iff_eq, List.length_eq_zero_iff, Payload.elements,
    List.map_eq_nil_iff]

/-- The printer writes the outline of a value. A container on its stack holds something. -/
theorem write_layout {h : Heap} (room : Nat) : ∀ (depth : Nat) (ancestors : List Value) (v : Value),
    (∀ u ∈ ancestors, (h.payload u).elements ≠ []) →
      write false (h.layout room depth ancestors v) = (h.outline room ancestors v).text := by
  induction room with
  | zero => intro depth ancestors v _; rfl
  | succ room ih =>
    intro depth ancestors v filled
    rw [Heap.layout, Heap.outline, Heap.outlineContent]
    generalize h.content v = v
    have inside : (h.payload v).elements ≠ [] → ∀ item,
        write false (h.layout room (depth + 1) (v :: ancestors) item) =
          (h.outline room (v :: ancestors) item).text := by
      intro some item
      refine ih _ _ item fun u mem => ?_
      rcases List.mem_cons.mp mem with rfl | mem
      · exact some
      · exact filled u mem
    have filledHere := filled v
    cases payload : h.payload v with
    | array items =>
      rw [payload, ne_eq, ← isEmpty_items] at inside filledHere
      dsimp only
      by_cases mem : v ∈ ancestors
      · rw [if_neg (filledHere mem), if_pos mem, if_pos mem]
        rfl
      · rw [if_neg mem, if_neg mem, Outline.text_array, List.map_map]
        by_cases none : items.isEmpty = true
        · rw [if_pos none, Array.isEmpty_iff.mp none]
          rfl
        · have rows := List.map_congr_left (l := items.toList) fun item _ => inside none item
          rw [if_neg none, write_array, List.map_map]
          exact congrArg (fun rows => '[' :: (listed rows ++ [']'])) rows
    | object fields =>
      rw [payload, ne_eq, ← isEmpty_fields] at inside filledHere
      dsimp only
      by_cases mem : v ∈ ancestors
      · rw [if_neg (filledHere mem), if_pos mem, if_pos mem]
        rfl
      · rw [if_neg mem, if_neg mem, Outline.text_object, List.map_map]
        by_cases none : fields.isEmpty = true
        · rw [if_pos none, List.map_eq_nil_iff.mp ((isEmpty_fields fields).mp none)]
          rfl
        · have some : fields.toList ≠ [] := fun eq =>
            none ((isEmpty_fields fields).mpr (by rw [Payload.elements, eq, List.map_nil]))
          rw [if_neg none, write_object _ (by rwa [ne_eq, List.map_eq_nil_iff]), List.map_map]
          refine congrArg inBraces (List.map_congr_left fun field _ => ?_)
          have item := inside none field.2
          rw [Function.comp, write_cons, write_cons, item, ← List.append_assoc]
          rfl
    | extension e => exact write_extensionPieces e
    | box content => rfl
    | _ => exact List.append_nil _

end Printing

/-! ## Both texts -/

/-- An array of an empty array, twice, of an object that a box holds, and of itself. The object
holds the empty array and the array. -/
def lattice : Heap :=
  .ofCells #[.ofPayload (.array #[.cell 1, .cell 1, .cell 2, .cell 0]),
    .ofPayload (.array #[]),
    ⟨.object, .counted, .box (.cell 3)⟩,
    .ofPayload (.object (.ofList 8 [("a", .cell 1), ("b", .cell 0)]))]

example : lattice.renderNested 2 false (.cell 0) =
    "[[], [], \x7b a: [...], b: [...] \x7d, [Circular]]".toList := by decide +kernel

end ValueMachine
