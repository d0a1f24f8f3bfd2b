import ValueMachine.Json.Document
import ValueMachine.Json.Quoted
import ValueMachine.Number.Format

/-!
# Written documents

A document is written without blanks, numbers with the standard precision.

Results:
* `Document.write`: the text of a document;
* `length_part_le`: the text of an item is no longer than that of the list.
-/

namespace ValueMachine.Json

/-- Parts with commas between them. -/
def commas : List (List Char) → List Char
  | [] => []
  | [part] => part
  | part :: parts => part ++ ',' :: commas parts

mutual

def Document.write : Document → List Char
  | .null => "null".toList
  | .bool b => (if b then "true" else "false").toList
  | .number x => Number.general x Number.standardPrecision
  | .text content => quote content.toList
  | .array items => '[' :: (commas (writeItems items) ++ [']'])
  | .object members => '\x7b' :: (commas (writeMembers members) ++ ['\x7d'])

def writeItems : List Document → List (List Char)
  | [] => []
  | item :: items => item.write :: writeItems items

def writeMembers : List (String × Document) → List (List Char)
  | [] => []
  | (name, document) :: members =>
    (quote name.toList ++ ':' :: document.write) :: writeMembers members

end

def writeMember (member : String × Document) : List Char :=
  quote member.1.toList ++ ':' :: member.2.write

theorem writeItems_eq (items : List Document) : writeItems items = items.map Document.write := by
  induction items with
  | nil => rfl
  | cons item items ih => rw [writeItems, ih, List.map_cons]

theorem writeMembers_eq (members : List (String × Document)) :
    writeMembers members = members.map writeMember := by
  induction members with
  | nil => rfl
  | cons member members ih => rw [writeMembers, ih, List.map_cons, writeMember]

theorem commas_cons_cons (part next : List Char) (parts : List (List Char)) :
    commas (part :: next :: parts) = part ++ ',' :: commas (next :: parts) := rfl

theorem length_part_le {part : List Char} {parts : List (List Char)} (mem : part ∈ parts) :
    part.length ≤ (commas parts).length := by
  induction parts with
  | nil => cases mem
  | cons first parts ih =>
    cases parts with
    | nil =>
      rw [List.mem_singleton.mp mem]
      exact Nat.le_refl _
    | cons next parts =>
      rw [commas_cons_cons, List.length_append, List.length_cons]
      rcases List.mem_cons.mp mem with rfl | mem
      · omega
      · have := ih mem
        omega

end ValueMachine.Json
