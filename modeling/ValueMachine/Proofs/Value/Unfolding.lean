import ValueMachine.Proofs.Heap.Boxes
import ValueMachine.Proofs.Json.Readers
import ValueMachine.Value.Encoder

/-!
# The tree that a value is written as

`Unfolds` says which tree stands for a value, by what is around it; `Heap.unfold` computes it. The
encoder writes the text of this tree and leaves its stack as it found it.

Results:
* `Encoder.write_eq`: the encoder writes the tree;
* `unfolds_iff`: if boxes do not hold each other in a circle, a value has this tree and no other;
* `Unfolds.isRegular`, `Unfolds.height_le`: the tree can be read back, and is not deeper than the
  limit.
-/

namespace ValueMachine

open Json (Document IsReader NumberText commas writeMember writeItems_eq writeMembers_eq heightItems
  heightMembers heightItems_le heightMembers_le)

/-! ## Trees -/

/-- The tree of a value at a place where the arrays and objects of the path are around it, the
innermost one first. -/
inductive Unfolds (h : Heap) (limit : Nat) : (path : List Value) → Value → Document → Prop
  | deep {path : List Value} {v : Value} (full : limit ≤ path.length) :
    Unfolds h limit path v (.text depthMark)
  | circular {path : List Value} {v : Value} (room : path.length < limit)
    (is : (h.payload v).isContainer = true) (mem : v ∈ path) :
    Unfolds h limit path v (.text circularMark)
  /-- A box stands for its content and adds no level. -/
  | box {path : List Value} {v content : Value} {d : Document} (room : path.length < limit)
    (payload : h.payload v = .box content) (inside : Unfolds h limit path content d) :
    Unfolds h limit path v d
  | undefined {path : List Value} {v : Value} (room : path.length < limit)
    (payload : h.payload v = .undefined) : Unfolds h limit path v .null
  | null {path : List Value} {v : Value} (room : path.length < limit)
    (payload : h.payload v = .null) : Unfolds h limit path v .null
  | function {path : List Value} {v : Value} {c : Closure} (room : path.length < limit)
    (payload : h.payload v = .function c) : Unfolds h limit path v .null
  | infinite {path : List Value} {v : Value} {x : Float} (room : path.length < limit)
    (payload : h.payload v = .number x) (notFinite : x.isFinite = false) :
    Unfolds h limit path v .null
  | number {path : List Value} {v : Value} {x : Float} (room : path.length < limit)
    (payload : h.payload v = .number x) (finite : x.isFinite = true) :
    Unfolds h limit path v (.number x)
  | bool {path : List Value} {v : Value} {b : Bool} (room : path.length < limit)
    (payload : h.payload v = .bool b) : Unfolds h limit path v (.bool b)
  | text {path : List Value} {v : Value} {isStatic : Bool} {content : String}
    (room : path.length < limit) (payload : h.payload v = .text isStatic content) :
    Unfolds h limit path v (.text content)
  | extension {path : List Value} {v : Value} {e : Extension} (room : path.length < limit)
    (payload : h.payload v = .extension e) : Unfolds h limit path v (.text e.typeName)
  | array {path : List Value} {v : Value} {items : Array Value} {documents : List Document}
    (room : path.length < limit) (payload : h.payload v = .array items) (new : v ∉ path)
    (length : items.toList.length = documents.length)
    (each : ∀ p ∈ items.toList.zip documents, Unfolds h limit (v :: path) p.1 p.2) :
    Unfolds h limit path v (.array documents)
  | object {path : List Value} {v : Value} {fields : Table Value}
    {members : List (String × Document)} (room : path.length < limit)
    (payload : h.payload v = .object fields) (new : v ∉ path)
    (names : fields.toList.map Prod.fst = members.map Prod.fst)
    (each : ∀ p ∈ fields.toList.zip members, Unfolds h limit (v :: path) p.1.2 p.2.2) :
    Unfolds h limit path v (.object members)

namespace Heap

/-- The tree of a value that is no box, from those of its elements. -/
def unfoldContent (h : Heap) (element : List Value → Value → Document) (path : List Value)
    (v : Value) : Document :=
  match h.payload v with
  | .number x => if x.isFinite then .number x else .null
  | .bool b => .bool b
  | .text _ content => .text content
  | .extension e => .text e.typeName
  | .array items =>
    if v ∈ path then .text circularMark
    else .array (items.toList.map (element (v :: path)))
  | .object fields =>
    if v ∈ path then .text circularMark
    else .object (fields.toList.map fun field => (field.1, element (v :: path) field.2))
  | _ => .null

/-- The tree of a value with at most `depth` levels. -/
def unfold (h : Heap) : (depth : Nat) → (path : List Value) → Value → Document
  | 0, _, _ => .text depthMark
  | depth + 1, path, v => h.unfoldContent (h.unfold depth) path (h.content v)

end Heap

/-! ## The encoder -/

namespace Encoder

theorem put_put (e : Encoder) (text text' : List Char) :
    (e.put text).put text' = e.put (text ++ text') := by
  rw [put, put, put, String.ofList_append, String.append_assoc]

/-- Parts that are written one by one are written with commas between them. -/
theorem putList_eq {α : Type} {write : α → Encoder → Encoder} {text : α → List Char}
    {parts : List α}
    {stack : List Value}
    (each : ∀ part ∈ parts, ∀ e : Encoder, e.stack = stack → write part e = e.put (text part)) :
    ∀ e : Encoder, e.stack = stack →
      putList write parts e = e.put (commas (parts.map text)) := by
  induction parts with
  | nil =>
    intro e _
    rw [putList, List.map_nil, commas, put, String.ofList_nil, String.append_empty]
  | cons part parts ih =>
    intro e same
    have first := each part List.mem_cons_self e same
    cases parts with
    | nil => exact first
    | cons next parts =>
      have others := ih (fun p mem => each p (List.mem_cons_of_mem part mem))
        ((e.put (text part)).put [',']) same
      rw [putList, first, others, put_put, put_put]
      · rfl
      · exact List.cons_ne_nil _ _

/-- The stack after an array or object is the one before it. -/
theorem putContainer_eq {v : Value} {e : Encoder} {opening closing : Char}
    {inside : Encoder → Encoder} {body : List Char}
    (writes : inside ((e.enter v).put [opening]) = ((e.enter v).put [opening]).put body) :
    e.putContainer v opening closing inside =
      if v ∈ e.stack then e.putQuoted circularMark
      else e.put (opening :: (body ++ [closing])) := by
  rw [putContainer, writes, put_put, put_put]
  rfl

/-- The encoder writes the tree of a value. -/
theorem write_eq (h : Heap) (depth : Nat) : ∀ (v : Value) (e : Encoder),
    write h depth v e = e.put (h.unfold depth e.stack v).write := by
  induction depth with
  | zero => intro v e; rfl
  | succ depth ih =>
    intro v e
    rw [write, Heap.unfold, Heap.unfoldContent]
    cases payload : h.payload (h.content v) with
    | number x =>
      dsimp only
      by_cases finite : x.isFinite = true
      · rw [if_pos finite, if_pos finite]; rfl
      · rw [if_neg finite, if_neg finite]; rfl
    | array items =>
      have each : ∀ item ∈ items.toList, ∀ e' : Encoder,
          e'.stack = h.content v :: e.stack → write h depth item e' =
            e'.put (h.unfold depth (h.content v :: e.stack) item).write := by
        intro item _ e' same
        rw [ih, same]
      have writes := putList_eq each ((e.enter (h.content v)).put ['[']) rfl
      dsimp only
      rw [putContainer_eq writes]
      by_cases mem : h.content v ∈ e.stack
      · rw [if_pos mem, if_pos mem]; rfl
      · rw [if_neg mem, if_neg mem, Document.write, writeItems_eq, List.map_map]; rfl
    | object fields =>
      have each : ∀ field ∈ fields.toList, ∀ e' : Encoder, e'.stack = h.content v :: e.stack →
          write h depth field.2 ((e'.putQuoted field.1).put [':']) =
            e'.put (writeMember (field.1, h.unfold depth (h.content v :: e.stack) field.2)) := by
        intro field _ e' same
        have stack : ((e'.putQuoted field.1).put [':']).stack = h.content v :: e.stack := same
        rw [ih, stack, putQuoted, put_put, put_put]; rfl
      have writes := putList_eq each ((e.enter (h.content v)).put ['\x7b']) rfl
      dsimp only
      rw [putContainer_eq writes]
      by_cases mem : h.content v ∈ e.stack
      · rw [if_pos mem, if_pos mem]; rfl
      · rw [if_neg mem, if_neg mem, Document.write, writeMembers_eq, List.map_map]; rfl
    | _ => rfl

end Encoder

/-- The JSON text of a value is that of its tree. -/
theorem Heap.json_eq (h : Heap) (limit : Nat) (v : Value) :
    h.json limit v = (h.unfold limit [] v).write := by
  rw [json, Encoder.write_eq, Encoder.put, Encoder.start, String.empty_append, String.toList_ofList]

/-! ## The tree is the only one -/

section Acyclic

variable {h : Heap} {limit : Nat}

/-- The tree of the content of a value is the tree of the value. -/
theorem Unfolds.of_follow {path : List Value} {d : Document} (room : path.length < limit)
    (fuel : Nat) : ∀ v : Value,
      Unfolds h limit path (h.follow fuel v) d → Unfolds h limit path v d := by
  induction fuel with
  | zero => intro v unfolds; exact unfolds
  | succ fuel ih =>
    intro v unfolds
    rw [Heap.follow] at unfolds
    split at unfolds
    · next content box => exact .box room box (ih content unfolds)
    · exact unfolds

theorem hasNoBoxCycle_follow (fuel : Nat) : ∀ v : Value, h.HasNoBoxCycle v →
    h.HasNoBoxCycle (h.follow fuel v) := by
  induction fuel with
  | zero => intro v acyclic; exact acyclic
  | succ fuel ih =>
    intro v acyclic
    rw [Heap.follow]
    split
    · next content box =>
      refine ih content (acyclic.of_part ?_)
      rw [box]
      exact List.mem_singleton_self content
    · exact acyclic

/-- A value has a tree at every place. -/
theorem unfolds_unfold (levels : Nat) : ∀ (path : List Value) (v : Value), h.HasNoBoxCycle v →
    path.length + levels = limit → Unfolds h limit path v (h.unfold levels path v) := by
  induction levels with
  | zero => intro path v _ full; exact .deep (by omega)
  | succ levels ih =>
    intro path v acyclic eq
    have room : path.length < limit := by omega
    have acyclic' : h.HasNoBoxCycle (h.content v) := hasNoBoxCycle_follow _ v acyclic
    have notBox := Heap.payload_content_ne_box acyclic
    have part : ∀ item ∈ (h.payload (h.content v)).parts,
        Unfolds h limit (h.content v :: path) item (h.unfold levels (h.content v :: path) item) := by
      intro item mem
      exact ih _ item (acyclic'.of_part mem) (by rw [List.length_cons]; omega)
    refine .of_follow room (h.size + 1) v ?_
    show Unfolds h limit path (h.content v) (h.unfoldContent (h.unfold levels) path (h.content v))
    rw [Heap.unfoldContent]
    cases payload : h.payload (h.content v) with
    | undefined => exact .undefined room payload
    | null => exact .null room payload
    | bool b => exact .bool room payload
    | number x =>
      dsimp only
      by_cases finite : x.isFinite = true
      · rw [if_pos finite]; exact .number room payload finite
      · rw [if_neg finite]; exact .infinite room payload (Bool.eq_false_iff.mpr finite)
    | text isStatic content => exact .text room payload
    | extension e => exact .extension room payload
    | function c => exact .function room payload
    | box content => exact absurd payload (notBox content)
    | array items =>
      rw [payload] at part
      dsimp only
      by_cases mem : h.content v ∈ path
      · rw [if_pos mem]; exact .circular room (by rw [payload]; rfl) mem
      · rw [if_neg mem]
        refine .array room payload mem (by rw [List.length_map]) fun p hp => ?_
        obtain ⟨inside, eq⟩ := mem_zip_map hp
        rw [eq]
        exact part p.1 inside
    | object fields =>
      rw [payload] at part
      dsimp only
      by_cases mem : h.content v ∈ path
      · rw [if_pos mem]; exact .circular room (by rw [payload]; rfl) mem
      · rw [if_neg mem]
        refine .object room payload mem (by rw [List.map_map]; rfl) fun p hp => ?_
        obtain ⟨inside, eq⟩ := mem_zip_map hp
        rw [eq]
        exact part p.1.2 (List.mem_map_of_mem inside)

theorem unfold_of_lt {path : List Value} (room : path.length < limit) (v : Value) :
    h.unfold (limit - path.length) path v =
      h.unfoldContent (h.unfold (limit - (path.length + 1))) path (h.content v) := by
  rw [show limit - path.length = limit - (path.length + 1) + 1 by omega, Heap.unfold]

theorem unfold_of_not_isBox {path : List Value} (room : path.length < limit) {v : Value}
    {p : Payload} (payload : h.payload v = p) (no : p.isBox = false) :
    h.unfold (limit - path.length) path v =
      h.unfoldContent (h.unfold (limit - (path.length + 1))) path v := by
  rw [unfold_of_lt room, Heap.content_of_ne_box fun w box => ?_]
  rw [← payload, box] at no; cases no

/-- A value has no other tree at a place. -/
theorem Unfolds.eq_unfold {path : List Value} {v : Value} {d : Document}
    (unfolds : Unfolds h limit path v d) (acyclic : h.HasNoBoxCycle v) :
    d = h.unfold (limit - path.length) path v := by
  induction unfolds with
  | deep full => rw [Nat.sub_eq_zero_of_le full, Heap.unfold]
  | @circular path v room is mem =>
    rw [unfold_of_lt room, Heap.content_of_isContainer is, Heap.unfoldContent]
    cases payload : h.payload v with
    | array => exact (if_pos mem).symm
    | object => exact (if_pos mem).symm
    | _ => rw [payload] at is; cases is
  | @box path v content d room payload inside ih =>
    have part : content ∈ (h.payload v).parts := by
      rw [payload]; exact List.mem_singleton_self content
    rw [unfold_of_lt room, Heap.content_of_box acyclic payload, ← unfold_of_lt room]
    exact ih (acyclic.of_part part)
  | undefined room payload => rw [unfold_of_not_isBox room payload rfl, Heap.unfoldContent, payload]
  | null room payload => rw [unfold_of_not_isBox room payload rfl, Heap.unfoldContent, payload]
  | function room payload => rw [unfold_of_not_isBox room payload rfl, Heap.unfoldContent, payload]
  | bool room payload => rw [unfold_of_not_isBox room payload rfl, Heap.unfoldContent, payload]
  | text room payload => rw [unfold_of_not_isBox room payload rfl, Heap.unfoldContent, payload]
  | extension room payload => rw [unfold_of_not_isBox room payload rfl, Heap.unfoldContent, payload]
  | infinite room payload notFinite =>
    rw [unfold_of_not_isBox room payload rfl, Heap.unfoldContent, payload]
    exact (if_neg (Bool.eq_false_iff.mp notFinite)).symm
  | number room payload finite =>
    rw [unfold_of_not_isBox room payload rfl, Heap.unfoldContent, payload]
    exact (if_pos finite).symm
  | @array path v items documents room payload new length each ih =>
    have elements : documents = items.toList.map
        (h.unfold (limit - (path.length + 1)) (v :: path)) := by
      refine eq_map_of_zip length fun p hp => ih p hp (acyclic.of_part ?_)
      rw [payload]
      exact (List.of_mem_zip hp).1
    rw [unfold_of_not_isBox room payload rfl, Heap.unfoldContent, payload]
    dsimp only
    rw [if_neg new, ← elements]
  | @object path v fields members room payload new names each ih =>
    have elements : members = fields.toList.map fun field =>
        (field.1, h.unfold (limit - (path.length + 1)) (v :: path) field.2) := by
      refine eq_map_of_zip (length_eq_of_fst_eq names) fun p hp =>
        Prod.ext (fst_eq_of_mem_zip names hp) (ih p hp (acyclic.of_part ?_))
      rw [payload]
      exact List.mem_map_of_mem (List.of_mem_zip hp).1
    rw [unfold_of_not_isBox room payload rfl, Heap.unfoldContent, payload]
    dsimp only
    rw [if_neg new, ← elements]

/-- A value has one tree at a place, the one that is computed. -/
theorem unfolds_iff {path : List Value} {v : Value} {d : Document} (acyclic : h.HasNoBoxCycle v)
    (le : path.length ≤ limit) :
    Unfolds h limit path v d ↔ d = h.unfold (limit - path.length) path v := by
  constructor
  · intro unfolds
    exact unfolds.eq_unfold acyclic
  · rintro rfl
    exact unfolds_unfold _ path v acyclic (by omega)

end Acyclic

/-! ## What trees are like -/

section Shape

variable {h : Heap} {limit : Nat} {path : List Value} {v : Value} {d : Document}

/-- The finite numbers in the graph of a value are read back from their texts. -/
def Heap.HasExactNumbers (h : Heap) (v : Value) : Prop :=
  ∀ u x, h.Reaches Payload.parts v u → h.payload u = .number x → x.isFinite = true →
    h.outside.document? (Number.general x Number.standardPrecision) = some (.number x)

theorem Heap.HasExactNumbers.of_part {w : Value} (numbers : h.HasExactNumbers v)
    (mem : w ∈ (h.payload v).parts) : h.HasExactNumbers w :=
  fun u x reached => numbers u x (reached.of_edge mem)

/-- A tree can be read back if its numbers can. -/
theorem Unfolds.isRegular {number? : NumberText → Option Float}
    (reader : IsReader h.outside.document? number?) (unfolds : Unfolds h limit path v d)
    (numbers : h.HasExactNumbers v) : d.IsRegular number? := by
  induction unfolds with
  | deep => exact .text depthMark
  | circular => exact .text circularMark
  | box room payload inside ih =>
    refine ih (numbers.of_part ?_)
    rw [payload]; exact List.mem_singleton_self _
  | undefined => exact .null
  | null => exact .null
  | function => exact .null
  | infinite => exact .null
  | number room payload finite => exact .number (reader.readsBack (numbers _ _ .root payload finite))
  | bool => exact .bool _
  | text => exact .text _
  | extension => exact .text _
  | array room payload new length each ih =>
    refine .array fun document mem => ?_
    obtain ⟨item, hp⟩ := exists_mem_zip length mem
    refine ih (item, document) hp (numbers.of_part ?_)
    rw [payload]; exact (List.of_mem_zip hp).1
  | @object path v fields members room payload new names each ih =>
    refine .object (names ▸ fields.nodup_keys) fun member mem => ?_
    obtain ⟨field, hp⟩ := exists_mem_zip (length_eq_of_fst_eq names) mem
    refine ih (field, member) hp (numbers.of_part ?_)
    rw [payload]; exact List.mem_map_of_mem (List.of_mem_zip hp).1

/-- A tree has as many levels as are left at its place, or fewer. -/
theorem Unfolds.height_le (unfolds : Unfolds h limit path v d) : d.height ≤ limit - path.length := by
  induction unfolds with
  | box room payload inside ih => exact ih
  | @array path v items documents room payload new length each ih =>
    have le : heightItems documents ≤ limit - (path.length + 1) := by
      refine heightItems_le fun document mem => ?_
      obtain ⟨item, hp⟩ := exists_mem_zip length mem
      exact ih (item, document) hp
    rw [Document.height]; omega
  | @object path v fields members room payload new names each ih =>
    have le : heightMembers members ≤ limit - (path.length + 1) := by
      refine heightMembers_le fun member mem => ?_
      obtain ⟨field, hp⟩ := exists_mem_zip (length_eq_of_fst_eq names) mem
      exact ih (field, member) hp
    rw [Document.height]; omega
  | _ => exact Nat.zero_le _

end Shape

end ValueMachine
