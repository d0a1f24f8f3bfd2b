import Mathlib.Data.List.MinMax
import Mathlib.Order.Nat
import ValueMachine.Proofs.Json.Numerals
import ValueMachine.Proofs.Json.Written

/-!
# Nesting of documents and of texts

Results:
* `Document.height`: how arrays and objects nest in a document;
* `Nests` and the rules for it: how brackets nest in a part of a text.
-/

namespace ValueMachine.Json

mutual

/-- The most arrays and objects around a place of the document. -/
def Document.height : Document → Nat
  | .array items => heightItems items + 1
  | .object members => heightMembers members + 1
  | _ => 0

def heightItems : List Document → Nat
  | [] => 0
  | item :: items => max item.height (heightItems items)

def heightMembers : List (String × Document) → Nat
  | [] => 0
  | (_, document) :: members => max document.height (heightMembers members)

end

/-- The depth at which a text begins is among those that are reached. -/
theorem le_nestingFrom (place : Surroundings) (depth : Nat) (text : List Char) :
    depth ≤ nestingFrom place depth text := by
  induction text generalizing place depth with
  | nil => cases place <;> exact Nat.le_refl depth
  | cons c text ih =>
    cases place with
    | escaped => exact ih _ _
    | quoted => exact ih _ _
    | outside =>
      rw [nestingFrom]
      split
      · exact ih _ _
      split
      · exact Nat.le_of_succ_le (ih _ _)
      split
      · exact Nat.le_max_left _ _
      · exact ih _ _

/-- A part of a text has brackets that nest `height` deep and are all closed. -/
def Nests (height : Nat) (part : List Char) : Prop :=
  ∀ (depth : Nat) (rest : List Char), nestingFrom .outside depth (part ++ rest) =
    max (depth + height) (nestingFrom .outside depth rest)

theorem nests_zero {part : List Char} (h : ∀ (depth : Nat) (rest : List Char),
    nestingFrom .outside depth (part ++ rest) = nestingFrom .outside depth rest) : Nests 0 part := by
  intro depth rest
  rw [h, Nat.add_zero, Nat.max_eq_right (le_nestingFrom _ _ _)]

theorem Nests.append {height height' : Nat} {part part' : List Char} (nests : Nests height part)
    (nests' : Nests height' part') : Nests (max height height') (part ++ part') := by
  intro depth rest
  rw [List.append_assoc, nests, nests']
  omega

theorem nests_cons {height : Nat} {part : List Char} {c : Char} (nests : Nests height part)
    (plain : ∀ depth text, nestingFrom .outside depth (c :: text) = nestingFrom .outside depth text) :
    Nests height (c :: part) := by
  intro depth rest
  rw [List.cons_append, plain, nests]

/-- Brackets around a part. -/
theorem Nests.enclose {height : Nat} {part : List Char} {opening close : Char}
    (nests : Nests height part)
    (opens : ∀ depth text, nestingFrom .outside depth (opening :: text) =
      nestingFrom .outside (depth + 1) text)
    (closes : ∀ depth text, nestingFrom .outside depth (close :: text) =
      max depth (nestingFrom .outside (depth - 1) text)) :
    Nests (height + 1) (opening :: (part ++ [close])) := by
  intro depth rest
  rw [List.cons_append, List.append_assoc, List.singleton_append, opens, nests, closes,
    Nat.add_sub_cancel]
  omega

/-- Parts with commas between them. -/
theorem nests_commas {α : Type} {write : α → List Char} {height : α → Nat} {xs : List α}
    (each : ∀ x ∈ xs, Nests (height x) (write x)) :
    Nests ((xs.map height).foldr max 0) (commas (xs.map write)) := by
  induction xs with
  | nil => exact nests_zero fun _ _ => rfl
  | cons x xs ih =>
    have first := each x List.mem_cons_self
    have others := ih fun y mem => each y (List.mem_cons_of_mem x mem)
    cases xs with
    | nil =>
      rw [List.map_cons, List.map_nil, List.foldr_cons, List.foldr_nil, Nat.max_zero]
      exact first
    | cons y ys =>
      rw [List.map_cons, List.foldr_cons]
      exact first.append (nests_cons others fun _ _ => rfl)

theorem heightItems_eq (items : List Document) :
    heightItems items = (items.map Document.height).foldr max 0 := by
  induction items with
  | nil => rfl
  | cons item items ih => rw [heightItems, ih, List.map_cons, List.foldr_cons]

theorem heightMembers_eq (members : List (String × Document)) :
    heightMembers members = (members.map fun member => member.2.height).foldr max 0 := by
  induction members with
  | nil => rfl
  | cons member members ih => rw [heightMembers, ih, List.map_cons, List.foldr_cons]

theorem heightItems_le {items : List Document} {n : Nat} (each : ∀ item ∈ items, item.height ≤ n) :
    heightItems items ≤ n := by
  rw [heightItems_eq]
  exact List.max_le_of_forall_le _ n (List.forall_mem_map.mpr each)

theorem heightMembers_le {members : List (String × Document)} {n : Nat}
    (each : ∀ member ∈ members, member.2.height ≤ n) : heightMembers members ≤ n := by
  rw [heightMembers_eq]
  exact List.max_le_of_forall_le _ n (List.forall_mem_map.mpr each)

theorem height_le_heightItems {items : List Document} {item : Document} (mem : item ∈ items) :
    item.height ≤ heightItems items := by
  rw [heightItems_eq]
  exact List.le_max_of_le (List.mem_map_of_mem mem) (Nat.le_refl _)

theorem height_le_heightMembers {members : List (String × Document)} {member : String × Document}
    (mem : member ∈ members) : member.2.height ≤ heightMembers members := by
  rw [heightMembers_eq]
  exact List.le_max_of_le (List.mem_map_of_mem mem) (Nat.le_refl _)

end ValueMachine.Json
