import ValueMachine.Proofs.Json.NumberReaders
import ValueMachine.Proofs.Json.Soundness

/-!
# The reader accepts the grammar

What the grammar spells is read as what it spells, if it is followed by something that can follow a
value: a blank, a comma, a closing bracket or nothing.

Results:
* `readQuoted?_append`: quoted texts;
* `readList?_commas`: lists, if their items are read;
* `read?_eq_some_iff`: a text is read as a document exactly if it spells the document.
-/

namespace ValueMachine.Json

/-! ## Quoted texts -/

theorem readHex?_append {code : Nat} {digits : List Char} (is : SpellsCode code digits)
    (rest : List Char) : readHex? (digits ++ rest) = some (code, rest) := by
  obtain ⟨ha, hb, hc, hd⟩ := is
  simp only [List.cons_append, List.nil_append, readHex?, List.mapM_cons, List.mapM_nil, ha, hb, hc,
    hd, Option.pure_def, Option.bind_eq_bind, Option.bind_some, List.foldl_cons, List.foldl_nil,
    Nat.mul_zero, Nat.zero_add]

/-- The escapes, after their backslash. -/
theorem readEscape?_append {c : Char} {part : List Char} (is : SpellsChar c ('\\' :: part))
    (notPlain : part ≠ []) (rest : List Char) :
    readEscape? .strict (part ++ rest) = some (c, rest) := by
  generalize whole : '\\' :: part = text at is
  cases is with
  | plain =>
    obtain ⟨-, rfl⟩ := List.cons.inj whole
    exact absurd rfl notPlain
  | @short letter _ is =>
    obtain ⟨-, rfl⟩ := List.cons.inj whole
    have notCode : letter ≠ 'u' := by
      rintro rfl
      cases is
    simp [readEscape?, notCode, is]
  | @code code digits is notHigh notLow =>
    obtain ⟨-, rfl⟩ := List.cons.inj whole
    simp [readEscape?, readCodeEscape?, readHex?_append is, notHigh, notLow]
  | @pair high low digits digits' is is' isHigh isLow =>
    obtain ⟨-, rfl⟩ := List.cons.inj whole
    simp [readEscape?, readCodeEscape?, readHex?_append is, readLowSurrogate?, readHex?_append is',
      isHigh, isLow, List.append_assoc]

/-- One character. -/
theorem readUnquoted?_append {c : Char} {part : List Char} (is : SpellsChar c part) (f : Char)
    (fuel rest : List Char) : readUnquoted? .strict (f :: fuel) (part ++ rest) =
      (readUnquoted? .strict fuel rest).map fun p => (c :: p.1, p.2) := by
  have escaped {letters : List Char} (is : SpellsChar c ('\\' :: letters)) (some : letters ≠ []) :
      readUnquoted? .strict (f :: fuel) ('\\' :: letters ++ rest) =
        (readUnquoted? .strict fuel rest).map fun p => (c :: p.1, p.2) := by
    have escape := readEscape?_append is some rest
    cases more : readUnquoted? .strict fuel rest <;> simp [readUnquoted?, escape, more]
  cases is with
  | plain notControl notMark notSlash =>
    cases more : readUnquoted? .strict fuel rest <;>
      simp [readUnquoted?, notMark, notSlash, Nat.not_lt.mpr notControl, more]
  | short is => exact escaped (.short is) (List.cons_ne_nil _ _)
  | code is notHigh notLow => exact escaped (.code is notHigh notLow) (List.cons_ne_nil _ _)
  | pair is is' isHigh isLow => exact escaped (.pair is is' isHigh isLow) (List.cons_ne_nil _ _)

theorem SpellsChar.length_pos {c : Char} {part : List Char} (is : SpellsChar c part) :
    0 < part.length := by
  cases is <;> simp

theorem readUnquoted?_chars {chars parts : List Char} (is : SpellsChars chars parts)
    (rest : List Char) : ∀ fuel : List Char, parts.length < fuel.length →
      readUnquoted? .strict fuel (parts ++ '"' :: rest) = some (chars, rest) := by
  induction is with
  | nil =>
    rintro (_ | ⟨f, fuel⟩) room
    · cases room
    · simp [readUnquoted?]
  | @cons c chars part parts first _ ih =>
    rintro (_ | ⟨f, fuel⟩) room
    · cases room
    · have pos := first.length_pos
      rw [List.length_append, List.length_cons] at room
      rw [List.append_assoc, readUnquoted?_append first, ih fuel (by omega)]
      rfl

/-- What spells a text between quotation marks is read as the text, whatever follows. -/
theorem readQuoted?_append {chars part : List Char} (is : SpellsText chars part)
    (rest : List Char) : readQuoted? .strict (part ++ rest) = some (chars, rest) := by
  obtain ⟨is⟩ := is
  rename_i parts
  rw [List.cons_append, List.append_assoc]
  exact readUnquoted?_chars is rest _ (by simp)

/-! ## What follows a value -/

/-- The text begins with a blank, a comma or a closing bracket, if with anything. -/
def Follows (text : List Char) : Prop :=
  ∀ c ∈ text.head?, isBlank c = true ∨ c = ',' ∨ c = ']' ∨ c = '\x7d'

theorem follows_nil : Follows [] := nofun

theorem Follows.delimits {text : List Char} (follows : Follows text) : Delimits text := by
  intro c first
  rcases follows c first with blank | rfl | rfl | rfl
  · exact isNumeral_of_isBlank blank
  · decide
  · decide
  · decide

theorem IsBlank.follows {blanks text : List Char} (blank : IsBlank blanks)
    (follows : Follows text) : Follows (blanks ++ text) := by
  cases blanks with
  | nil => exact follows
  | cons c blanks =>
    rintro d ⟨⟩
    exact .inl (blank c List.mem_cons_self)

theorem IsBlank.skipBlanks_append {blanks : List Char} (blank : IsBlank blanks)
    (text : List Char) : skipBlanks (blanks ++ text) = skipBlanks text := by
  rw [skipBlanks, skipBlanks]
  exact List.dropWhile_append_of_pos blank

theorem readWord?_append (word : String) (rest : List Char) :
    readWord? word (word.toList ++ rest) = some rest := by
  have front : word.toList.isPrefixOf (word.toList ++ rest) = true :=
    List.isPrefixOf_iff_prefix.mpr (List.prefix_append _ _)
  rw [readWord?, if_pos front, ← String.length_toList, List.drop_left]

/-! ## Lists -/

section Lists

variable {α β : Type} {item : List Char → Option (α × List Char)} {text : β → List Char}

/-- With something after it, the part is read as the item, up to blanks. -/
def ReadsPart (item : List Char → Option (α × List Char)) (x : α) (part : List Char) : Prop :=
  ∀ rest, Follows rest → ∃ left, item (skipBlanks (part ++ rest)) = some (x, left) ∧
    skipBlanks left = skipBlanks rest

/-- The part has more than blanks, and no closing bracket in front. -/
def Opens (part : List Char) : Prop :=
  ∃ c rest, skipBlanks part = c :: rest ∧ c ≠ ']' ∧ c ≠ '\x7d'

theorem IsBlank.opens {before part : List Char} (blank : IsBlank before) (opens : Opens part) :
    Opens (before ++ part) := by
  obtain ⟨c, rest, eq, notBracket⟩ := opens
  exact ⟨c, rest, by rw [blank.skipBlanks_append, eq], notBracket⟩

theorem skipBlanks_append_of_cons {part rest : List Char} {c : Char}
    (eq : skipBlanks part = c :: rest) (more : List Char) :
    skipBlanks (part ++ more) = c :: (rest ++ more) := by
  obtain ⟨blanks, blank, split⟩ := exists_blanks part
  have dark : isBlank c = false := by
    have front : part.dropWhile isBlank = c :: rest := eq
    have first := List.head_dropWhile_not isBlank (front ▸ List.cons_ne_nil c rest)
    simpa only [front, List.head_cons] using first
  rw [split, eq, List.append_assoc, blank.skipBlanks_append, List.cons_append,
    skipBlanks_cons dark]

theorem Opens.append {part : List Char} (opens : Opens part) (more : List Char) :
    Opens (part ++ more) := by
  obtain ⟨c, rest, eq, notBracket⟩ := opens
  exact ⟨c, rest ++ more, skipBlanks_append_of_cons eq more, notBracket⟩

theorem Opens.length_pos {part : List Char} (opens : Opens part) : 0 < part.length := by
  obtain ⟨c, rest, eq, -⟩ := opens
  cases part with
  | nil => cases eq
  | cons => exact Nat.succ_pos _

/-- What happens after one item. -/
theorem readMore?_item {x : α} {f c close : Char} {fuel input left more : List Char}
    (first : item (skipBlanks input) = some (x, left)) (next : skipBlanks left = c :: more) :
    readMore? item close (f :: fuel) input =
      if c = close then some ([x], more)
      else if c = ',' then (readMore? item close fuel more).map fun p => (x :: p.1, p.2)
      else none := by
  rw [readMore?, first]
  simp only [Option.bind_eq_bind, Option.bind_some, next]
  cases readMore? item close fuel more <;> rfl

/-- Items with commas between them are read up to the closing bracket. -/
theorem readMore?_commas {close : Char} (bracket : close = ']' ∨ close = '\x7d')
    (rest : List Char) (xs : List α) :
    ∀ (parts : List β) (fuel : List Char), xs.length = parts.length → parts ≠ [] →
      (∀ p ∈ xs.zip parts, ReadsPart item p.1 (text p.2)) → parts.length ≤ fuel.length →
      readMore? item close fuel (commas (parts.map text) ++ close :: rest) = some (xs, rest) := by
  have dark : isBlank close = false ∧ close ≠ ',' := by
    rcases bracket with rfl | rfl <;> decide
  have follows : Follows (close :: rest) := by
    rintro c ⟨⟩
    exact .inr (.inr bracket)
  induction xs with
  | nil =>
    intro parts fuel length some
    exact absurd (List.length_eq_zero_iff.mp length.symm) some
  | cons x xs ih =>
    rintro (_ | ⟨part, parts⟩) (_ | ⟨f, fuel⟩) length some reads room
    · cases length
    · cases length
    · cases room
    obtain ⟨first, others⟩ := List.forall_mem_cons.mp reads
    have length := Nat.succ.inj length
    cases parts with
    | nil =>
      obtain rfl := List.length_eq_zero_iff.mp length
      obtain ⟨left, read, skips⟩ := first (close :: rest) follows
      rw [skipBlanks_cons dark.1] at skips
      exact (readMore?_item read skips).trans (if_pos rfl)
    | cons next parts =>
      have more := ih (next :: parts) fuel length (List.cons_ne_nil _ _) others
        (Nat.le_of_succ_le_succ room)
      rw [List.map_cons, List.map_cons, commas_cons_cons, ← List.map_cons, List.append_assoc,
        List.cons_append]
      generalize commas ((next :: parts).map text) ++ close :: rest = tail at more ⊢
      obtain ⟨left, read, skips⟩ := first (',' :: tail) (by rintro c ⟨⟩; exact .inr (.inl rfl))
      rw [skipBlanks_cons (by decide)] at skips
      rw [readMore?_item read skips, if_neg dark.2.symm, if_pos rfl, more]
      rfl

theorem length_le_commas {parts : List (List Char)} (opens : ∀ part ∈ parts, Opens part) :
    parts.length ≤ (commas parts).length := by
  induction parts with
  | nil => exact Nat.le_refl 0
  | cons part parts ih =>
    obtain ⟨first, others⟩ := List.forall_mem_cons.mp opens
    have pos := first.length_pos
    cases parts with
    | nil => exact pos
    | cons next parts =>
      have := ih others
      rw [commas_cons_cons]
      simp only [List.length_append, List.length_cons] at this ⊢
      omega

/-- Nothing but blanks between brackets. -/
theorem readList?_blanks {close : Char} (bracket : close = ']' ∨ close = '\x7d')
    {blanks : List Char} (blank : IsBlank blanks) (rest : List Char) :
    readList? item close (blanks ++ close :: rest) = some ([], rest) := by
  have dark : isBlank close = false := by
    rcases bracket with rfl | rfl <;> decide
  rw [readList?, blank.skipBlanks_append, skipBlanks_cons dark]
  exact if_pos rfl

/-- What is between brackets is read, if each item is. -/
theorem readList?_commas {close : Char} (bracket : close = ']' ∨ close = '\x7d') {xs : List α}
    {parts : List β} (length : xs.length = parts.length)
    (opens : ∀ part ∈ parts, Opens (text part))
    (reads : ∀ p ∈ xs.zip parts, ReadsPart item p.1 (text p.2)) (rest : List Char) :
    readList? item close (commas (parts.map text) ++ close :: rest) = some (xs, rest) := by
  cases parts with
  | nil =>
    obtain rfl := List.length_eq_zero_iff.mp length
    exact readList?_blanks bracket isBlank_nil rest
  | cons part parts =>
    have begins : Opens (commas ((part :: parts).map text)) := by
      have first := opens part List.mem_cons_self
      cases parts with
      | nil => exact first
      | cons next parts => exact first.append _
    have room := length_le_commas (List.forall_mem_map.mpr opens)
    have more := readMore?_commas bracket rest xs (part :: parts)
      (commas ((part :: parts).map text) ++ close :: rest) length (List.cons_ne_nil _ _) reads (by
        rw [List.length_append]
        rw [List.length_map] at room
        omega)
    obtain ⟨c, left, eq, notArray, notObject⟩ := begins.append (close :: rest)
    have other : c ≠ close := by
      rcases bracket with rfl | rfl
      · exact notArray
      · exact notObject
    rw [readList?, eq]
    exact (if_neg other).trans more

end Lists

/-! ## Documents -/

section Documents

variable {number? : NumberText → Option Float}

theorem SpellsNumber.exists_cons {n : NumberText} {part : List Char} (is : SpellsNumber n part) :
    ∃ c rest, part = c :: rest ∧ isNumeral c = true := by
  cases part with
  | nil =>
    have none := readNumberText?_append is delimits_nil
    cases none
  | cons c rest => exact ⟨c, rest, rfl, is.numerals c List.mem_cons_self⟩

theorem SpellsText.opens {chars part : List Char} (is : SpellsText chars part) : Opens part := by
  obtain ⟨is⟩ := is
  exact ⟨'"', _, skipBlanks_cons (by decide) _, by decide, by decide⟩

theorem SpellsName.opens {name : String} {part : List Char} (is : SpellsName name part) :
    Opens part := by
  obtain ⟨blank, is, -⟩ := is
  exact blank.opens (is.opens.append _)

theorem Spells.opens {d : Document} {part : List Char} (spells : Spells number? d part) :
    Opens part := by
  have plain {c : Char} (dark : isBlank c = false) (notArray : c ≠ ']') (notObject : c ≠ '\x7d')
      (rest : List Char) : Opens (c :: rest) :=
    ⟨c, rest, skipBlanks_cons dark rest, notArray, notObject⟩
  induction spells with
  | blanks blank _ _ ih => exact blank.opens (ih.append _)
  | null => exact plain (by decide) (by decide) (by decide) _
  | bool b => cases b <;> exact plain (by decide) (by decide) (by decide) _
  | number is =>
    obtain ⟨c, rest, rfl, numeral⟩ := is.exists_cons
    exact plain (isBlank_of_isNumeral numeral) (ne_of_isNumeral numeral (by decide))
      (ne_of_isNumeral numeral (by decide)) rest
  | text is => exact is.opens
  | emptyArray | array | emptyObject | object => exact plain (by decide) (by decide) (by decide) _

/-- With fuel for the part, it is read as the document. -/
def Reads (d : Document) (part : List Char) : Prop :=
  ∀ fuel : List Char, part.length ≤ fuel.length → ReadsPart (readValue? .strict fuel) d part

/-- A value that is read to its end, without blanks in front of it. -/
theorem readsPart_of_cons {d : Document} {fuel part text : List Char} {c : Char}
    (begins : part = c :: text) (dark : isBlank c = false)
    (reads : ∀ rest, Follows rest → readValue? .strict fuel (part ++ rest) = some (d, rest)) :
    ReadsPart (readValue? .strict fuel) d part := by
  subst begins
  intro rest follows
  refine ⟨rest, ?_, rfl⟩
  rw [List.cons_append, skipBlanks_cons dark, ← List.cons_append]
  exact reads rest follows

theorem reads_blanks {d : Document} {before part after : List Char} (blank : IsBlank before)
    (inside : Reads d part) (blank' : IsBlank after) : Reads d (before ++ (part ++ after)) := by
  intro fuel room rest follows
  rw [List.length_append, List.length_append] at room
  obtain ⟨left, read, skips⟩ := inside fuel (by omega) (after ++ rest) (blank'.follows follows)
  rw [blank'.skipBlanks_append] at skips
  rw [List.append_assoc, List.append_assoc, blank.skipBlanks_append]
  exact ⟨left, read, skips⟩

theorem reads_null : Reads .null "null".toList := by
  rintro (_ | ⟨f, fuel⟩) room
  · cases room
  · refine readsPart_of_cons rfl (by decide) fun rest _ => ?_
    have word := readWord?_append "null" rest
    show (readWord? "null" ("null".toList ++ rest) >>= fun rest => some (Document.null, rest)) = _
    rw [word]; rfl

theorem reads_bool (b : Bool) : Reads (.bool b) (if b then "true" else "false").toList := by
  rintro (_ | ⟨f, fuel⟩) room
  · cases b <;> cases room
  cases b with
  | false =>
    refine readsPart_of_cons rfl (by decide) fun rest _ => ?_
    have word := readWord?_append "false" rest
    show (readWord? "false" ("false".toList ++ rest) >>= fun rest =>
      some (Document.bool false, rest)) = _
    rw [word]; rfl
  | true =>
    refine readsPart_of_cons rfl (by decide) fun rest _ => ?_
    have word := readWord?_append "true" rest
    show (readWord? "true" ("true".toList ++ rest) >>= fun rest =>
      some (Document.bool true, rest)) = _
    rw [word]; rfl

theorem reads_number {n : NumberText} {part : List Char} {x : Float} (is : SpellsNumber n part)
    (value : n.value? .strict = some x) : Reads (.number x) part := by
  obtain ⟨c, text, begins, numeral⟩ := is.exists_cons
  rintro (_ | ⟨f, fuel⟩) room
  · rw [begins] at room; cases room
  · refine readsPart_of_cons begins (isBlank_of_isNumeral numeral) fun rest follows => ?_
    have read : readNumber? .strict (part ++ rest) = some (x, rest) := by
      rw [readNumber?, readNumberText?_append is follows.delimits, Option.bind_eq_bind,
        Option.bind_some]
      dsimp only
      rw [value]
      rfl
    have other {d : Char} (no : isNumeral d = false) : c ≠ d := ne_of_isNumeral numeral no
    rw [begins, List.cons_append] at read
    rw [begins, List.cons_append, readValue?, if_neg (other (by decide)),
      if_neg (other (by decide)), if_neg (other (by decide)), if_neg (other (by decide)),
      if_neg (other (by decide)), if_neg (other (by decide)), read]
    rfl

theorem reads_text {content : String} {part : List Char} (is : SpellsText content.toList part) :
    Reads (.text content) part := by
  have read := readQuoted?_append is
  obtain ⟨inside⟩ := is
  rename_i parts
  rintro (_ | ⟨f, fuel⟩) room
  · cases room
  · refine readsPart_of_cons rfl (by decide) fun rest _ => ?_
    show (readQuoted? .strict ('"' :: (parts ++ ['"']) ++ rest) >>= fun p =>
      some (Document.text (.ofList p.1), p.2)) = _
    rw [read]
    simp only [Option.bind_eq_bind, Option.bind_some, String.ofList_toList]

theorem reads_array {items : List Document} {inner : List Char}
    (list : ∀ fuel rest : List Char, inner.length < fuel.length →
      readList? (readValue? .strict fuel) ']' (inner ++ ']' :: rest) = some (items, rest)) :
    Reads (.array items) ('[' :: (inner ++ [']'])) := by
  rintro (_ | ⟨f, fuel⟩) room
  · cases room
  · refine readsPart_of_cons rfl (by decide) fun rest _ => ?_
    simp only [List.length_cons, List.length_append] at room
    have read := list fuel rest (by omega)
    rw [List.cons_append, List.append_assoc, List.singleton_append, readValue?, if_pos rfl, read]
    rfl

theorem reads_object {members : List (String × Document)} {inner : List Char}
    (list : ∀ fuel rest : List Char, inner.length < fuel.length →
      readList? (readMember? .strict (readValue? .strict fuel)) '\x7d' (inner ++ '\x7d' :: rest) =
        some (members, rest)) :
    Reads (.object members) ('\x7b' :: (inner ++ ['\x7d'])) := by
  rintro (_ | ⟨f, fuel⟩) room
  · cases room
  · refine readsPart_of_cons rfl (by decide) fun rest _ => ?_
    simp only [List.length_cons, List.length_append] at room
    have read := list fuel rest (by omega)
    rw [List.cons_append, List.append_assoc, List.singleton_append, readValue?,
      if_neg (by decide), if_pos rfl, read]
    rfl

/-- A member is read if its document is. -/
theorem readsPart_member {value : List Char → Option (Document × List Char)} {name : String}
    {d : Document} {namePart part : List Char} (named : SpellsName name namePart)
    (reads : ReadsPart value d part) :
    ReadsPart (readMember? .strict value) (name, d) (namePart ++ ':' :: part) := by
  obtain ⟨blank, is, blank'⟩ := named
  rename_i before quoted after
  intro rest follows
  obtain ⟨left, read, skips⟩ := reads rest follows
  refine ⟨left, ?_, skips⟩
  have front : skipBlanks (before ++ (quoted ++ after) ++ ':' :: part ++ rest) =
      quoted ++ (after ++ ':' :: (part ++ rest)) := by
    obtain ⟨inside⟩ := is
    simp only [List.append_assoc, List.cons_append]
    rw [blank.skipBlanks_append, skipBlanks_cons (by decide)]
  have colon : readWord? ":" (':' :: (part ++ rest)) = some (part ++ rest) :=
    readWord?_append ":" _
  have readName : readName? .strict (quoted ++ (after ++ ':' :: (part ++ rest))) =
      some (name, skipBlanks (part ++ rest)) := by
    rw [readName?, readQuoted?_append is]
    simp only [Option.bind_eq_bind, Option.bind_some, Option.pure_def]
    rw [blank'.skipBlanks_append, skipBlanks_cons (by decide), colon]
    simp only [Option.bind_some, String.ofList_toList]
  rw [front, readMember?, readName]
  simp only [Option.bind_eq_bind, Option.bind_some, read, Option.pure_def]

/-- What spells a document is read as the document. -/
theorem reads_of_spells {d : Document} {part : List Char}
    (spells : Spells (NumberText.value? .strict) d part) : Reads d part := by
  induction spells with
  | blanks blank _ blank' ih => exact reads_blanks blank ih blank'
  | null => exact reads_null
  | bool b => exact reads_bool b
  | number is value => exact reads_number is value
  | text is => exact reads_text is
  | emptyArray blank => exact reads_array fun _ rest _ => readList?_blanks (.inl rfl) blank rest
  | emptyObject blank => exact reads_object fun _ rest _ => readList?_blanks (.inr rfl) blank rest
  | @array items parts length each ih =>
    refine reads_array fun fuel rest room => ?_
    have opens : ∀ part ∈ parts, Opens part :=
      forall_mem_of_zip length fun p mem => (each p mem).opens
    have reads : ∀ p ∈ items.zip parts, ReadsPart (readValue? .strict fuel) p.1 p.2 := by
      intro p mem
      have le := length_part_le (List.of_mem_zip mem).2
      exact ih p mem fuel (by omega)
    have list := @readList?_commas _ _ _ id _ (.inl rfl) _ _ length opens reads rest
    rwa [List.map_id] at list
  | @object members parts length named each ih =>
    refine reads_object fun fuel rest room => ?_
    have opens : ∀ part ∈ parts, Opens (part.1 ++ ':' :: part.2) :=
      forall_mem_of_zip length fun p mem => (named p mem).opens.append _
    have reads : ∀ p ∈ members.zip parts, ReadsPart (readMember? .strict (readValue? .strict fuel))
        p.1 (p.2.1 ++ ':' :: p.2.2) := by
      intro p mem
      have le := length_part_le (List.mem_map_of_mem (f := fun part => part.1 ++ ':' :: part.2)
        (List.of_mem_zip mem).2)
      rw [List.length_append, List.length_cons] at le
      exact readsPart_member (named p mem) (ih p mem fuel (by omega))
    exact readList?_commas (.inr rfl) length opens reads rest

/-- A text is read as a document exactly if it spells the document. -/
theorem read?_eq_some_iff {d : Document} {text : List Char} :
    Document.read? text = some d ↔ Spells (NumberText.value? .strict) d text := by
  refine ⟨spells_of_read?, fun spells => ?_⟩
  obtain ⟨left, read, skips⟩ := reads_of_spells spells text (Nat.le_refl _) [] follows_nil
  rw [List.append_nil] at read
  have none : skipBlanks left = [] := skips
  rw [Document.read?, read, Option.bind_eq_bind, Option.bind_some]
  dsimp only
  rw [none]
  rfl

end Documents

end ValueMachine.Json
