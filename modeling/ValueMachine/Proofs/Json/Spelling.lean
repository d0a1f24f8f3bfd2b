import ValueMachine.Proofs.Json.Grammar
import ValueMachine.Proofs.Number.Digits
import ValueMachine.Proofs.Number.Reading

/-!
# What is written belongs to the grammar

Results:
* `isWhole_digits`, `isDigits_padZeros`, `isDigit_of_mem_strip`: the digits of a number;
* `spellsText_quote`: a quoted text spells the text;
* `spells_write`: the text of a regular document spells the document.
-/

namespace ValueMachine.Json

open Number (Decimal signText digits padZeros general)

/-! ## Numbers -/

theorem isDigits_digits (n : Nat) : IsDigits (digits n) :=
  ⟨Number.digits_ne_nil n, fun _ mem => Number.isDigit_of_mem_digits mem⟩

theorem isWhole_digits (n : Nat) : IsWhole (digits n) :=
  ⟨isDigits_digits n, Number.digits_of_head?⟩

theorem isDigits_padZeros (width : Nat) {text : List Char} (is : IsDigits text) :
    IsDigits (padZeros width text) := by
  refine ⟨List.append_ne_nil_of_right_ne_nil _ is.1, fun c mem => ?_⟩
  rcases List.mem_append.mp mem with mem | mem
  · rw [List.eq_of_mem_replicate mem]; rfl
  · exact is.2 c mem

/-- The digits after the point, without the zeros at their end. -/
theorem isDigit_of_mem_strip {scaled places : Nat} {c : Char}
    (mem : c ∈ (Decimal.ofScaled scaled places).strip.fraction) : c.isDigit = true := by
  have mem := List.dropWhile_subset _ (List.mem_reverse.mp mem)
  rw [List.mem_reverse, Decimal.ofScaled] at mem
  dsimp only at mem
  split at mem
  · cases mem
  · exact (isDigits_padZeros _ (isDigits_digits _)).2 c mem

/-! ## Texts -/

theorem hexValue?_hexDigit {n : Nat} (lt : n < 16) : hexValue? (hexDigit n) = some n := by
  have each : ∀ k : Fin 16, hexValue? (hexDigit k) = some k.val := by decide
  exact each ⟨n, lt⟩

theorem spellsChar_codeEscape {c : Char} (lt : c.toNat < 0x20) :
    SpellsChar c (codeEscape c.toNat) := by
  have zero : hexValue? '0' = some 0 := by decide
  have high : hexValue? (hexDigit (c.toNat / 16)) = some (c.toNat / 16) :=
    hexValue?_hexDigit (by omega)
  have low : hexValue? (hexDigit (c.toNat % 16)) = some (c.toNat % 16) :=
    hexValue?_hexDigit (by omega)
  have is := SpellsCode.intro zero zero high low
  rw [show 16 * (16 * (16 * 0 + 0) + c.toNat / 16) + c.toNat % 16 = c.toNat by omega] at is
  have spells := SpellsChar.code is (by simp [isHighSurrogate]; omega)
    (by simp [isLowSurrogate]; omega)
  rwa [Char.ofNat_toNat] at spells

theorem spellsChar_escape (c : Char) : SpellsChar c (escape c) := by
  rw [escape]
  split
  · next eq => subst eq; exact .short rfl
  split
  · next eq => subst eq; exact .short rfl
  split
  · next eq => subst eq; exact .short rfl
  split
  · next eq => subst eq; exact .short rfl
  split
  · next eq => subst eq; exact .short rfl
  split
  · next lt => exact spellsChar_codeEscape lt
  · next notMark notSlash _ _ _ notControl => exact .plain (by omega) notMark notSlash

theorem spellsChars_escape (chars : List Char) : SpellsChars chars (chars.flatMap escape) := by
  induction chars with
  | nil => exact .nil
  | cons c chars ih => exact .cons (spellsChar_escape c) ih

/-- A quoted text spells the text. -/
theorem spellsText_quote (chars : List Char) : SpellsText chars (quote chars) :=
  .intro (spellsChars_escape chars)

/-- So is a quoted name. -/
theorem spellsName_quote (name : String) : SpellsName name (quote name.toList) := by
  have is : SpellsName name ([] ++ (quote name.toList ++ [])) :=
    .intro isBlank_nil (spellsText_quote _) isBlank_nil
  rwa [List.nil_append, List.append_nil] at is

/-! ## Documents -/

section Documents

variable {number? : NumberText → Option Float}

/-- The texts of items spell an array. -/
theorem spells_array {items : List Document} {f : Document → Document}
    (each : ∀ item ∈ items, Spells number? (f item) item.write) :
    Spells number? (.array (items.map f)) ('[' :: (commas (items.map Document.write) ++ [']'])) := by
  refine .array (by simp) ?_
  rw [List.zip_map']
  intro p hp
  obtain ⟨item, mem, rfl⟩ := List.mem_map.mp hp
  exact each item mem

/-- The quoted names and the texts of members spell an object. -/
theorem spells_object {members : List (String × Document)} {f : String × Document → Document}
    (each : ∀ member ∈ members, Spells number? (f member) member.2.write) :
    Spells number? (.object (members.map fun member => (member.1, f member)))
      ('\x7b' :: (commas (members.map writeMember) ++ ['\x7d'])) := by
  have parts : members.map writeMember = (members.map fun member =>
      (quote member.1.toList, member.2.write)).map fun part => part.1 ++ ':' :: part.2 := by
    rw [List.map_map]; rfl
  rw [parts]
  refine .object (by simp) ?_ ?_ <;> rw [List.zip_map'] <;> intro p hp <;>
    obtain ⟨member, mem, rfl⟩ := List.mem_map.mp hp
  · exact spellsName_quote member.1
  · exact each member mem

/-- The text of a number spells the number. -/
def ReadsBack (number? : NumberText → Option Float) (x : Float) : Prop :=
  Spells number? (.number x) (general x Number.standardPrecision)

/-- Every number is spelt by its text, and no object has two members of one name. -/
inductive Document.IsRegular (number? : NumberText → Option Float) : Document → Prop
  | null : IsRegular number? .null
  | bool (b : Bool) : IsRegular number? (.bool b)
  | number {x : Float} (readsBack : ReadsBack number? x) : IsRegular number? (.number x)
  | text (content : String) : IsRegular number? (.text content)
  | array {items : List Document} (each : ∀ item ∈ items, item.IsRegular number?) :
    IsRegular number? (.array items)
  | object {members : List (String × Document)} (distinct : (members.map Prod.fst).Nodup)
    (each : ∀ member ∈ members, member.2.IsRegular number?) : IsRegular number? (.object members)

/-- The text of a regular document spells the document. -/
theorem spells_write {d : Document} (regular : d.IsRegular number?) :
    Spells number? d d.write := by
  induction regular with
  | null => exact .null
  | bool b => exact .bool b
  | number readsBack => exact readsBack
  | text content => exact .text (spellsText_quote _)
  | @array items each ih =>
    have spells := spells_array (f := id) ih
    rwa [List.map_id, ← writeItems_eq] at spells
  | @object members distinct each ih =>
    have spells := spells_object (f := Prod.snd) ih
    rwa [List.map_id', ← writeMembers_eq] at spells

end Documents

end ValueMachine.Json
