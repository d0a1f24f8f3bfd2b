import ValueMachine.Proofs.Json.Spelling
import ValueMachine.Proofs.Table.Listing

/-!
# Documents with one member of each name

Of members of one name the first gives the place and the last the document. What is made of a
document has its members like that.

Results:
* `nodup_ofPairs`: among merged members no name is there twice;
* `merged_eq_self`: a document without a name twice is merged already.
-/

namespace ValueMachine.Json

/-- Induction on documents: an array from its items, an object from the documents of its members. -/
@[elab_as_elim]
theorem Document.induct {P : Document → Prop} (null : P .null) (bool : ∀ b, P (.bool b))
    (number : ∀ x, P (.number x)) (text : ∀ content, P (.text content))
    (array : ∀ items : List Document, (∀ item ∈ items, P item) → P (.array items))
    (object : ∀ members : List (String × Document), (∀ member ∈ members, P member.2) →
      P (.object members)) (d : Document) : P d :=
  @Document.rec P (fun items => ∀ item ∈ items, P item)
    (fun members => ∀ member ∈ members, P member.2) (fun member => P member.2)
    null bool number text array object
    (fun _ mem => absurd mem List.not_mem_nil)
    (fun _ _ first others => List.forall_mem_cons.mpr ⟨first, others⟩)
    (fun _ mem => absurd mem List.not_mem_nil)
    (fun _ _ first others => List.forall_mem_cons.mpr ⟨first, others⟩) (fun _ _ inside => inside) d

mutual

/-- The document with one member of each name in every object. -/
def Document.merged : Document → Document
  | .array items => .array (mergedItems items)
  | .object members => .object (Listing.ofPairs (mergedMembers members))
  | d => d

def mergedItems : List Document → List Document
  | [] => []
  | item :: items => item.merged :: mergedItems items

def mergedMembers : List (String × Document) → List (String × Document)
  | [] => []
  | (name, document) :: members => (name, document.merged) :: mergedMembers members

end

theorem mergedItems_eq (items : List Document) : mergedItems items = items.map Document.merged := by
  induction items with
  | nil => rfl
  | cons item items ih => rw [mergedItems, ih, List.map_cons]

theorem mergedMembers_eq (members : List (String × Document)) :
    mergedMembers members = members.map (Prod.map id Document.merged) := by
  induction members with
  | nil => rfl
  | cons member members ih => rw [mergedMembers, ih, List.map_cons]; rfl

theorem eq_number_of_merged {d : Document} {x : Float} (eq : d.merged = .number x) :
    d = .number x := by
  cases d <;> first | exact eq | cases eq

theorem nodup_ofPairs {α : Type} (pairs : List (String × α)) :
    ((Listing.ofPairs pairs).map Prod.fst).Nodup := by
  rw [← Table.toList_ofList_eq 0]
  exact Table.nodup_keys _

theorem Document.IsRegular.hasDistinctNames {number? : NumberText → Option Float} {d : Document}
    (regular : d.IsRegular number?) : HasDistinctNames d := by
  induction regular with
  | null => exact .null
  | bool b => exact .bool b
  | number => exact .number _
  | text content => exact .text content
  | array _ ih => exact .array ih
  | object distinct _ ih => exact .object distinct ih

/-- A document without a name twice is merged already. -/
theorem merged_eq_self {d : Document} (distinct : HasDistinctNames d) : d.merged = d := by
  induction distinct with
  | null | bool | number | text => rfl
  | array each ih =>
    rw [Document.merged, mergedItems_eq, List.map_congr_left ih, List.map_id']
  | @object members distinct each ih =>
    have same : members.map (Prod.map id Document.merged) = members := by
      have each : ∀ member ∈ members, Prod.map id Document.merged member = member :=
        fun member mem => Prod.ext rfl (ih member mem)
      rw [List.map_congr_left each, List.map_id']
    rw [Document.merged, mergedMembers_eq, same, ← Table.toList_ofList_eq 0,
      Table.toList_ofList 0 distinct]

end ValueMachine.Json
