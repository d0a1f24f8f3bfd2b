import ValueMachine.Proofs.Json.Nesting

/-!
# The grammar of JSON

RFC 8259 as a relation between trees and the texts that spell them, apart from any reader or writer.
Which double a number stands for, if any, is left open, and half a surrogate pair stands for no
character.

Results:
* `Spells.nests`, `nesting_of_spells`: in every text of the grammar brackets nest as arrays and
  objects do in the tree.
-/

namespace ValueMachine.Json

/-! ## Numbers -/

/-- One digit or more. -/
def IsDigits (text : List Char) : Prop := text ≠ [] ∧ ∀ c ∈ text, c.isDigit = true

/-- Digits without a needless zero in front. -/
def IsWhole (text : List Char) : Prop :=
  IsDigits text ∧ (text.head? = some '0' → text = ['0'])

/-- Digits do not begin with any other character. -/
theorem IsDigits.head?_ne {digits : List Char} (is : IsDigits digits) {c : Char}
    (other : c.isDigit = false) (rest : List Char) : (digits ++ rest).head? ≠ some c := by
  obtain ⟨some, all⟩ := is
  obtain ⟨d, digits, rfl⟩ := List.exists_cons_of_ne_nil some
  rintro ⟨⟩
  rw [all c List.mem_cons_self] at other
  cases other

inductive SpellsFraction : Option (List Char) → List Char → Prop
  | none : SpellsFraction none []
  | digits {digits : List Char} (is : IsDigits digits) : SpellsFraction (some digits) ('.' :: digits)

inductive SpellsExponent : Option (Bool × List Char) → List Char → Prop
  | none : SpellsExponent none []
  | digits {mark : Char} {digits : List Char} (isMark : mark = 'e' ∨ mark = 'E')
    (is : IsDigits digits) : SpellsExponent (some (false, digits)) (mark :: digits)
  | plus {mark : Char} {digits : List Char} (isMark : mark = 'e' ∨ mark = 'E')
    (is : IsDigits digits) : SpellsExponent (some (false, digits)) (mark :: '+' :: digits)
  | minus {mark : Char} {digits : List Char} (isMark : mark = 'e' ∨ mark = 'E')
    (is : IsDigits digits) : SpellsExponent (some (true, digits)) (mark :: '-' :: digits)

inductive SpellsNumber : NumberText → List Char → Prop
  | intro {negative : Bool} {whole : List Char} {fraction : Option (List Char)}
    {exponent : Option (Bool × List Char)} {fractionText exponentText : List Char}
    (isWhole : IsWhole whole) (isFraction : SpellsFraction fraction fractionText)
    (isExponent : SpellsExponent exponent exponentText) :
    SpellsNumber ⟨negative, whole, fraction, exponent⟩
      (Number.signText negative ++ whole ++ fractionText ++ exponentText)

/-! ## Texts -/

/-- Four hexadecimal digits. -/
inductive SpellsCode : Nat → List Char → Prop
  | intro {a b c d : Char} {i j k l : Nat} (ha : hexValue? a = some i) (hb : hexValue? b = some j)
    (hc : hexValue? c = some k) (hd : hexValue? d = some l) :
    SpellsCode (16 * (16 * (16 * i + j) + k) + l) [a, b, c, d]

inductive SpellsChar : Char → List Char → Prop
  | plain {c : Char} (notControl : 0x20 ≤ c.toNat) (notMark : c ≠ '"') (notSlash : c ≠ '\\') :
    SpellsChar c [c]
  | short {letter c : Char} (is : shortEscape? letter = some c) : SpellsChar c ['\\', letter]
  | code {code : Nat} {digits : List Char} (is : SpellsCode code digits)
    (notHigh : isHighSurrogate code = false) (notLow : isLowSurrogate code = false) :
    SpellsChar (.ofNat code) ('\\' :: 'u' :: digits)
  | pair {high low : Nat} {digits digits' : List Char} (is : SpellsCode high digits)
    (is' : SpellsCode low digits') (isHigh : isHighSurrogate high = true)
    (isLow : isLowSurrogate low = true) :
    SpellsChar (pairCharacter high low) ('\\' :: 'u' :: digits ++ '\\' :: 'u' :: digits')

inductive SpellsChars : List Char → List Char → Prop
  | nil : SpellsChars [] []
  | cons {c : Char} {chars part parts : List Char} (first : SpellsChar c part)
    (others : SpellsChars chars parts) : SpellsChars (c :: chars) (part ++ parts)

/-- A text between quotation marks. -/
inductive SpellsText : List Char → List Char → Prop
  | intro {chars parts : List Char} (is : SpellsChars chars parts) :
    SpellsText chars ('"' :: (parts ++ ['"']))

/-! ## Trees -/

def IsBlank (text : List Char) : Prop := ∀ c ∈ text, isBlank c = true

theorem isBlank_nil : IsBlank [] := fun _ mem => absurd mem List.not_mem_nil

theorem IsBlank.append {text text' : List Char} (blank : IsBlank text) (blank' : IsBlank text') :
    IsBlank (text ++ text') := List.forall_mem_append.mpr ⟨blank, blank'⟩

/-- A name, with blanks around it. -/
inductive SpellsName : String → List Char → Prop
  | intro {name : String} {before part after : List Char} (blank : IsBlank before)
    (is : SpellsText name.toList part) (blank' : IsBlank after) :
    SpellsName name (before ++ (part ++ after))

/-- The text spells the tree; `number?` tells what numbers stand for. -/
inductive Spells (number? : NumberText → Option Float) : Document → List Char → Prop
  | blanks {d : Document} {before part after : List Char} (blank : IsBlank before)
    (inside : Spells number? d part) (blank' : IsBlank after) :
    Spells number? d (before ++ (part ++ after))
  | null : Spells number? .null "null".toList
  | bool (b : Bool) : Spells number? (.bool b) (if b then "true" else "false").toList
  | number {n : NumberText} {part : List Char} {x : Float} (is : SpellsNumber n part)
    (value : number? n = some x) : Spells number? (.number x) part
  | text {content : String} {part : List Char} (is : SpellsText content.toList part) :
    Spells number? (.text content) part
  | emptyArray {blanks : List Char} (blank : IsBlank blanks) :
    Spells number? (.array []) ('[' :: (blanks ++ [']']))
  | array {items : List Document} {parts : List (List Char)} (length : items.length = parts.length)
    (each : ∀ p ∈ items.zip parts, Spells number? p.1 p.2) :
    Spells number? (.array items) ('[' :: (commas parts ++ [']']))
  | emptyObject {blanks : List Char} (blank : IsBlank blanks) :
    Spells number? (.object []) ('\x7b' :: (blanks ++ ['\x7d']))
  /-- The texts are pairs, one of a name and one of a value. -/
  | object {members : List (String × Document)} {parts : List (List Char × List Char)}
    (length : members.length = parts.length)
    (named : ∀ p ∈ members.zip parts, SpellsName p.1.1 p.2.1)
    (each : ∀ p ∈ members.zip parts, Spells number? p.1.2 p.2.2) :
    Spells number? (.object members)
      ('\x7b' :: (commas (parts.map fun part => part.1 ++ ':' :: part.2) ++ ['\x7d']))

/-- No object has two members of one name. -/
inductive HasDistinctNames : Document → Prop
  | null : HasDistinctNames .null
  | bool (b : Bool) : HasDistinctNames (.bool b)
  | number (x : Float) : HasDistinctNames (.number x)
  | text (content : String) : HasDistinctNames (.text content)
  | array {items : List Document} (each : ∀ item ∈ items, HasDistinctNames item) :
    HasDistinctNames (.array items)
  | object {members : List (String × Document)} (distinct : (members.map Prod.fst).Nodup)
    (each : ∀ member ∈ members, HasDistinctNames member.2) : HasDistinctNames (.object members)

/-! ## Nesting -/

theorem IsDigits.numerals {text : List Char} (is : IsDigits text) :
    ∀ c ∈ text, isNumeral c = true := fun c mem => isNumeral_of_isDigit (is.2 c mem)

/-- A number has only characters of numbers. -/
theorem SpellsNumber.numerals {n : NumberText} {part : List Char} (spells : SpellsNumber n part) :
    ∀ c ∈ part, isNumeral c = true := by
  obtain ⟨isWhole, isFraction, isExponent⟩ := spells
  rename_i negative whole fraction exponent fractionText exponentText
  have sign : ∀ c ∈ Number.signText negative, isNumeral c = true := by
    cases negative with
    | false => exact fun c mem => absurd mem List.not_mem_nil
    | true => exact List.forall_mem_singleton.mpr (by decide)
  have point : ∀ c ∈ fractionText, isNumeral c = true := by
    cases isFraction with
    | none => exact fun c mem => absurd mem List.not_mem_nil
    | digits is => exact List.forall_mem_cons.mpr ⟨by decide, is.numerals⟩
  have mark {c : Char} (isMark : c = 'e' ∨ c = 'E') : isNumeral c = true := by
    rcases isMark with rfl | rfl <;> decide
  have power : ∀ c ∈ exponentText, isNumeral c = true := by
    cases isExponent with
    | none => exact fun c mem => absurd mem List.not_mem_nil
    | digits isMark is => exact List.forall_mem_cons.mpr ⟨mark isMark, is.numerals⟩
    | plus isMark is =>
      exact List.forall_mem_cons.mpr ⟨mark isMark, List.forall_mem_cons.mpr ⟨by decide, is.numerals⟩⟩
    | minus isMark is =>
      exact List.forall_mem_cons.mpr ⟨mark isMark, List.forall_mem_cons.mpr ⟨by decide, is.numerals⟩⟩
  intro c mem
  simp only [List.mem_append] at mem
  rcases mem with ((mem | mem) | mem) | mem
  · exact sign c mem
  · exact isWhole.1.numerals c mem
  · exact point c mem
  · exact power c mem

theorem SpellsCode.nestingFrom_eq {code : Nat} {digits : List Char} (is : SpellsCode code digits)
    (depth : Nat) (rest : List Char) :
    nestingFrom .quoted depth (digits ++ rest) = nestingFrom .quoted depth rest := by
  have notMark : hexValue? '"' = none := by decide
  have notSlash : hexValue? '\\' = none := by decide
  have plain {c : Char} {i : Nat} (hc : hexValue? c = some i) (text : List Char) :
      nestingFrom .quoted depth (c :: text) = nestingFrom .quoted depth text := by
    have other : c ≠ '\\' ∧ c ≠ '"' := by
      constructor <;> rintro rfl <;> simp_all
    rw [nestingFrom, if_neg other.1, if_neg other.2]
  obtain ⟨ha, hb, hc, hd⟩ := is
  simp only [List.cons_append, List.nil_append, plain ha, plain hb, plain hc, plain hd]

theorem SpellsChar.nestingFrom_eq {c : Char} {part : List Char} (is : SpellsChar c part)
    (depth : Nat) (rest : List Char) :
    nestingFrom .quoted depth (part ++ rest) = nestingFrom .quoted depth rest := by
  cases is with
  | plain _ notMark notSlash => simp [nestingFrom, notMark, notSlash]
  | short => rfl
  | code is => exact is.nestingFrom_eq depth rest
  | @pair high low digits digits' is is' =>
    rw [List.cons_append, List.cons_append, List.cons_append, List.cons_append, List.append_assoc]
    exact (is.nestingFrom_eq depth _).trans (is'.nestingFrom_eq depth rest)

/-- Brackets between quotation marks do not nest. -/
theorem SpellsText.nestingFrom_eq {chars part : List Char} (is : SpellsText chars part)
    (depth : Nat) (rest : List Char) :
    nestingFrom .outside depth (part ++ rest) = nestingFrom .outside depth rest := by
  obtain ⟨is⟩ := is
  rename_i parts
  have inside : nestingFrom .quoted depth (parts ++ '"' :: rest) =
      nestingFrom .outside depth rest := by
    induction is with
    | nil => rfl
    | cons first _ ih => rw [List.append_assoc, first.nestingFrom_eq, ih]
  rw [List.cons_append, List.append_assoc]
  exact inside

theorem IsBlank.nestingFrom_eq {text : List Char} (blank : IsBlank text) (depth : Nat)
    (rest : List Char) :
    nestingFrom .outside depth (text ++ rest) = nestingFrom .outside depth rest := by
  induction text with
  | nil => rfl
  | cons c text ih =>
    obtain ⟨first, others⟩ := List.forall_mem_cons.mp blank
    have plain : nestingFrom .outside depth (c :: (text ++ rest)) =
        nestingFrom .outside depth (text ++ rest) := by
      simp only [isBlank, Bool.or_eq_true, beq_iff_eq] at first
      rcases first with ((rfl | rfl) | rfl) | rfl <;> rfl
    rw [List.cons_append, plain, ih others]

theorem IsBlank.nests {text : List Char} (blank : IsBlank text) : Nests 0 text :=
  nests_zero blank.nestingFrom_eq

theorem SpellsName.nests {name : String} {part : List Char} (is : SpellsName name part) :
    Nests 0 part := by
  obtain ⟨blank, is, blank'⟩ := is
  exact blank.nests.append ((nests_zero is.nestingFrom_eq).append blank'.nests)

theorem forall_mem_of_zip {α β : Type} {xs : List α} {parts : List β} {P : β → Prop}
    (length : xs.length = parts.length) (each : ∀ p ∈ xs.zip parts, P p.2) :
    ∀ part ∈ parts, P part := by
  rw [← List.map_snd_zip (Nat.le_of_eq length.symm)]
  exact List.forall_mem_map.mpr each

/-- Items and their texts, with commas between the texts. -/
theorem nests_zip {α β : Type} {height : α → Nat} {text : β → List Char} {xs : List α}
    {parts : List β} (length : xs.length = parts.length)
    (each : ∀ p ∈ xs.zip parts, Nests (height p.1) (text p.2)) :
    Nests ((xs.map height).foldr max 0) (commas (parts.map text)) := by
  have each' : ∀ p ∈ xs.zip parts, Nests ((height ∘ Prod.fst) p) ((text ∘ Prod.snd) p) := each
  have nests := nests_commas each'
  rwa [← List.map_map, ← List.map_map, List.map_fst_zip (Nat.le_of_eq length),
    List.map_snd_zip (Nat.le_of_eq length.symm)] at nests

/-- The brackets of a text nest as arrays and objects do in the tree. -/
theorem Spells.nests {number? : NumberText → Option Float} {d : Document} {part : List Char}
    (spells : Spells number? d part) : Nests d.height part := by
  induction spells with
  | blanks blank _ blank' ih =>
    have nests := blank.nests.append (ih.append blank'.nests)
    rwa [Nat.max_zero, Nat.zero_max] at nests
  | null => exact nests_zero fun _ _ => rfl
  | bool b => cases b <;> exact nests_zero fun _ _ => rfl
  | number is => exact nests_zero fun depth rest => nestingFrom_numeral depth is.numerals rest
  | text is => exact nests_zero is.nestingFrom_eq
  | emptyArray blank => exact blank.nests.enclose (fun _ _ => rfl) fun _ _ => rfl
  | emptyObject blank => exact blank.nests.enclose (fun _ _ => rfl) fun _ _ => rfl
  | @array items parts length each ih =>
    have ih' : ∀ p ∈ items.zip parts, Nests p.1.height (id p.2) := ih
    have nests := nests_zip length ih'
    rw [List.map_id, ← heightItems_eq] at nests
    exact nests.enclose (fun _ _ => rfl) fun _ _ => rfl
  | @object members parts length named each ih =>
    rw [Document.height, heightMembers_eq]
    refine (nests_zip length fun p mem => ?_).enclose (fun _ _ => rfl) fun _ _ => rfl
    have nests := (named p mem).nests.append (nests_cons (c := ':') (ih p mem) fun _ _ => rfl)
    rwa [Nat.zero_max] at nests

/-- The nesting of a text of the grammar is the height of its tree. -/
theorem nesting_of_spells {number? : NumberText → Option Float} {d : Document} {text : List Char}
    (spells : Spells number? d text) : nesting text = d.height := by
  have nests := spells.nests 0 []
  rw [List.append_nil, Nat.zero_add] at nests
  exact nests.trans (Nat.max_eq_left (Nat.zero_le _))

end ValueMachine.Json
