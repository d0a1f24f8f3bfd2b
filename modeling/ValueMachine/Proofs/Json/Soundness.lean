import Mathlib.Data.List.TakeWhile
import ValueMachine.Proofs.Json.Grammar

/-!
# What the reader accepts

Each reader takes off the front of a text what the grammar spells as its answer, so a text that is read
as a whole is a text of the grammar.

Results:
* `spells_of_read?`: a text that has a tree spells it.
-/

namespace ValueMachine.Json

/-! ## Blanks and words -/

theorem exists_blanks (text : List Char) : ∃ blanks, IsBlank blanks ∧ text = blanks ++ skipBlanks text :=
  ⟨text.takeWhile isBlank, fun _ mem => List.mem_takeWhile_imp mem,
    (List.takeWhile_append_dropWhile).symm⟩

theorem eq_append_of_readWord? {word : String} {text rest : List Char}
    (reads : readWord? word text = some rest) : text = word.toList ++ rest := by
  rw [readWord?] at reads
  split at reads
  · next starts =>
    cases reads
    obtain ⟨rest, rfl⟩ := List.isPrefixOf_iff_prefix.mp starts
    rw [← String.length_toList, List.drop_left]
  · cases reads

/-! ## Numbers -/

theorem isDigits_of_readDigits? {text digits rest : List Char}
    (reads : readDigits? text = some (digits, rest)) : IsDigits digits ∧ text = digits ++ rest := by
  rw [readDigits?] at reads
  split at reads
  · cases reads
  · next some =>
    cases reads
    refine ⟨⟨?_, fun c mem => List.mem_takeWhile_imp mem⟩, (List.takeWhile_append_dropWhile).symm⟩
    intro none
    rw [none] at some
    exact some rfl

theorem isWhole_of_readWhole? {text digits rest : List Char}
    (reads : readWhole? text = some (digits, rest)) : IsWhole digits ∧ text = digits ++ rest := by
  obtain ⟨⟨digits', rest'⟩, first, second⟩ := Option.bind_eq_some_iff.mp reads
  obtain ⟨is, eq⟩ := isDigits_of_readDigits? first
  dsimp only at second
  split at second
  · cases second
  · next needed =>
    cases second
    refine ⟨⟨is, fun zero => ?_⟩, eq⟩
    have short : digits.length ≤ 1 := Nat.not_lt.mp fun more => needed ⟨zero, more⟩
    cases digits with
    | nil => cases zero
    | cons c digits =>
      have none : digits = [] := List.length_eq_zero_iff.mp (by simpa using short)
      rw [none, Option.some.inj zero]

theorem spellsFraction_of_readFraction? {text rest : List Char} {fraction : Option (List Char)}
    (reads : readFraction? text = some (fraction, rest)) :
    ∃ part, text = part ++ rest ∧ SpellsFraction fraction part := by
  rw [readFraction?.eq_def] at reads
  split at reads
  · obtain ⟨⟨digits, rest'⟩, first, second⟩ := Option.bind_eq_some_iff.mp reads
    cases second
    obtain ⟨is, eq⟩ := isDigits_of_readDigits? first
    exact ⟨_, congrArg (List.cons '.') eq, .digits is⟩
  · cases reads
    exact ⟨[], rfl, .none⟩

theorem eq_append_of_readSign {text rest : List Char} {negative : Bool}
    (reads : readSign text = (negative, rest)) :
    negative = false ∧ (text = rest ∨ text = '+' :: rest) ∨ negative = true ∧ text = '-' :: rest := by
  rw [readSign.eq_def] at reads
  split at reads <;> cases reads
  · exact .inr ⟨rfl, rfl⟩
  · exact .inl ⟨rfl, .inr rfl⟩
  · exact .inl ⟨rfl, .inl rfl⟩

theorem spellsExponent_of_readExponent? {text rest : List Char} {exponent : Option (Bool × List Char)}
    (reads : readExponent? text = some (exponent, rest)) :
    ∃ part, text = part ++ rest ∧ SpellsExponent exponent part := by
  cases text with
  | nil => cases reads; exact ⟨[], rfl, .none⟩
  | cons c text =>
    rw [readExponent?] at reads
    split at reads
    · next isMark =>
      generalize signed : readSign text = sign at reads
      obtain ⟨negative, rest₁⟩ := sign
      obtain ⟨⟨digits, rest₂⟩, first, second⟩ := Option.bind_eq_some_iff.mp reads
      cases second
      obtain ⟨is, rfl⟩ := isDigits_of_readDigits? first
      rcases eq_append_of_readSign signed with ⟨rfl, rfl | rfl⟩ | ⟨rfl, rfl⟩
      · exact ⟨_, rfl, .digits isMark is⟩
      · exact ⟨_, rfl, .plus isMark is⟩
      · exact ⟨_, rfl, .minus isMark is⟩
    · cases reads
      exact ⟨[], rfl, .none⟩

theorem eq_signText_append (text : List Char) :
    text = Number.signText (text.head? = some '-') ++
      (if text.head? = some '-' then text.drop 1 else text) := by
  by_cases negative : text.head? = some '-'
  · obtain ⟨rest, rfl⟩ := List.head?_eq_some_iff.mp negative
    rfl
  · simp [Number.signText, negative]

theorem spellsNumber_of_readNumberText? {text rest : List Char} {n : NumberText}
    (reads : readNumberText? text = some (n, rest)) :
    ∃ part, text = part ++ rest ∧ SpellsNumber n part := by
  obtain ⟨⟨whole, rest₁⟩, readsWhole, reads⟩ := Option.bind_eq_some_iff.mp reads
  obtain ⟨⟨fraction, rest₂⟩, readsFraction, reads⟩ := Option.bind_eq_some_iff.mp reads
  obtain ⟨⟨exponent, rest₃⟩, readsExponent, reads⟩ := Option.bind_eq_some_iff.mp reads
  cases reads
  obtain ⟨isWhole, eq⟩ := isWhole_of_readWhole? readsWhole
  obtain ⟨fractionText, rfl, isFraction⟩ := spellsFraction_of_readFraction? readsFraction
  obtain ⟨exponentText, rfl, isExponent⟩ := spellsExponent_of_readExponent? readsExponent
  refine ⟨_, ?_, .intro isWhole isFraction isExponent⟩
  have signed := eq_signText_append text
  rw [eq] at signed
  simp only [List.append_assoc]
  exact signed

/-! ## Texts -/

theorem spellsCode_of_readHex? {text rest : List Char} {code : Nat}
    (reads : readHex? text = some (code, rest)) :
    ∃ digits, text = digits ++ rest ∧ SpellsCode code digits := by
  rw [readHex?.eq_def] at reads
  split at reads
  · next a b c d rest' =>
    obtain ⟨digits, values, eq⟩ := Option.bind_eq_some_iff.mp reads
    cases eq
    simp only [List.mapM_cons, List.mapM_nil, Option.bind_eq_bind, Option.pure_def,
      Option.bind_eq_some_iff, Option.some.injEq] at values
    obtain ⟨i, ha, _, ⟨j, hb, _, ⟨k, hc, _, ⟨l, hd, _, rfl, rfl⟩, rfl⟩, rfl⟩, rfl⟩ := values
    have value : [i, j, k, l].foldl (fun n digit => 16 * n + digit) 0 =
        16 * (16 * (16 * i + j) + k) + l := by simp
    rw [value]
    exact ⟨[a, b, c, d], rfl, .intro ha hb hc hd⟩
  · cases reads

theorem spellsCode_of_readLowSurrogate? {text rest : List Char} {code : Nat}
    (reads : readLowSurrogate? text = some (code, rest)) :
    ∃ digits, text = '\\' :: 'u' :: digits ++ rest ∧ SpellsCode code digits ∧
      isLowSurrogate code = true := by
  rw [readLowSurrogate?.eq_def] at reads
  split at reads
  · obtain ⟨⟨low, rest'⟩, first, second⟩ := Option.bind_eq_some_iff.mp reads
    obtain ⟨digits, rfl, spells⟩ := spellsCode_of_readHex? first
    dsimp only at second
    split at second
    · next isLow =>
      cases second
      exact ⟨digits, rfl, spells, isLow⟩
    · cases second
  · cases reads

theorem spellsChar_of_readCodeEscape? {text rest : List Char} {c : Char}
    (reads : readCodeEscape? .strict text = some (c, rest)) :
    ∃ part, text = part ++ rest ∧ SpellsChar c ('\\' :: 'u' :: part) := by
  obtain ⟨⟨code, rest₁⟩, first, second⟩ := Option.bind_eq_some_iff.mp reads
  obtain ⟨digits, rfl, spells⟩ := spellsCode_of_readHex? first
  dsimp only at second
  split at second
  · next plain =>
    cases second
    rw [Bool.and_eq_true, Bool.not_eq_true', Bool.not_eq_true'] at plain
    exact ⟨digits, rfl, .code spells plain.1 plain.2⟩
  split at second
  · next isHigh =>
    obtain ⟨⟨low, rest₂⟩, lowReads, pair⟩ := Option.bind_eq_some_iff.mp second
    obtain ⟨rfl, rfl⟩ := Prod.mk.inj (Option.some.inj pair)
    obtain ⟨digits', rfl, spells', isLow⟩ := spellsCode_of_readLowSurrogate? lowReads
    exact ⟨digits ++ '\\' :: 'u' :: digits', by simp, .pair spells spells' isHigh isLow⟩
  · cases second

theorem spellsChar_of_readEscape? {text rest : List Char} {c : Char}
    (reads : readEscape? .strict text = some (c, rest)) :
    ∃ part, text = part ++ rest ∧ SpellsChar c ('\\' :: part) := by
  cases text with
  | nil => cases reads
  | cons letter text =>
    rw [readEscape?] at reads
    split at reads
    · next isCode =>
      subst isCode
      obtain ⟨part, rfl, spells⟩ := spellsChar_of_readCodeEscape? reads
      exact ⟨'u' :: part, rfl, spells⟩
    · obtain ⟨d, short, eq⟩ := Option.map_eq_some_iff.mp reads
      cases eq
      exact ⟨[letter], rfl, .short short⟩

theorem spellsChars_of_readUnquoted? (fuel : List Char) : ∀ {text rest chars : List Char},
    readUnquoted? .strict fuel text = some (chars, rest) →
      ∃ parts, text = parts ++ '"' :: rest ∧ SpellsChars chars parts := by
  induction fuel with
  | nil => intro text rest chars reads; cases text <;> cases reads
  | cons _ fuel ih =>
    intro text rest chars reads
    cases text with
    | nil => cases reads
    | cons c text =>
      rw [readUnquoted?] at reads
      split at reads
      · next isMark =>
        subst isMark
        cases reads
        exact ⟨[], rfl, .nil⟩
      split at reads
      · next isSlash =>
        subst isSlash
        obtain ⟨⟨d, rest₁⟩, first, reads⟩ := Option.bind_eq_some_iff.mp reads
        obtain ⟨⟨others, rest₂⟩, second, eq⟩ := Option.bind_eq_some_iff.mp reads
        cases eq
        obtain ⟨part, rfl, spells⟩ := spellsChar_of_readEscape? first
        obtain ⟨parts, rfl, spells'⟩ := ih second
        exact ⟨('\\' :: part) ++ parts, by simp, .cons spells spells'⟩
      split at reads
      · cases reads
      · next notMark notSlash notControl =>
        obtain ⟨⟨others, rest₂⟩, second, eq⟩ := Option.bind_eq_some_iff.mp reads
        cases eq
        obtain ⟨parts, rfl, spells'⟩ := ih second
        exact ⟨[c] ++ parts, by simp, .cons (.plain (Nat.not_lt.mp notControl) notMark notSlash) spells'⟩

theorem spellsText_of_readQuoted? {text rest chars : List Char}
    (reads : readQuoted? .strict text = some (chars, rest)) :
    ∃ part, text = part ++ rest ∧ SpellsText chars part := by
  rw [readQuoted?.eq_def] at reads
  split at reads
  · obtain ⟨parts, rfl, spells⟩ := spellsChars_of_readUnquoted? _ reads
    exact ⟨'"' :: (parts ++ ['"']), by simp, .intro spells⟩
  · cases reads

/-! ## Lists -/

/-- What an item reader takes is text that spells its answer. -/
def Spelt {α β : Type} (spells : α → β → Prop) (text : β → List Char)
    (read : List Char → Option (α × List Char)) : Prop :=
  ∀ {input rest : List Char} {a : α}, read input = some (a, rest) →
    ∃ part, input = text part ++ rest ∧ spells a part

/-- Blanks around an item may be counted as part of it. -/
def TakesBlanks {α β : Type} (spells : α → β → Prop) (text : β → List Char) : Prop :=
  ∀ {a : α} {before after : List Char} {part : β}, IsBlank before → spells a part → IsBlank after →
    ∃ part', text part' = before ++ (text part ++ after) ∧ spells a part'

theorem spelt_readMore? {α β : Type} {spells : α → β → Prop} {text : β → List Char}
    {item : List Char → Option (α × List Char)} (spelt : Spelt spells text item)
    (blanks : TakesBlanks spells text) (close : Char) (fuel : List Char) :
    ∀ {input rest : List Char} {xs : List α}, readMore? item close fuel input = some (xs, rest) →
      ∃ parts : List β, parts ≠ [] ∧ xs.length = parts.length ∧
        input = commas (parts.map text) ++ close :: rest ∧ ∀ p ∈ xs.zip parts, spells p.1 p.2 := by
  induction fuel with
  | nil => intro input rest xs reads; cases reads
  | cons _ fuel ih =>
    intro input rest xs reads
    obtain ⟨⟨x, rest₁⟩, first, reads⟩ := Option.bind_eq_some_iff.mp reads
    dsimp only at reads
    -- the item with the blanks on both sides
    obtain ⟨before, blank, input_eq⟩ := exists_blanks input
    obtain ⟨after, blank', rest_eq⟩ := exists_blanks rest₁
    obtain ⟨part, taken, is⟩ := spelt first
    obtain ⟨part', whole, is'⟩ := blanks blank is blank'
    have front : input = text part' ++ skipBlanks rest₁ := by
      rw [input_eq, taken, whole, List.append_assoc, List.append_assoc, ← rest_eq]
    split at reads
    · cases reads
    · next c rest₂ remaining =>
      rw [remaining] at front
      split at reads
      · next closes =>
        cases reads
        refine ⟨[part'], List.cons_ne_nil _ _, rfl, ?_, ?_⟩
        · rw [front, closes]; rfl
        · intro p mem
          cases List.mem_singleton.mp mem
          exact is'
      split at reads
      · next isComma =>
        obtain ⟨⟨others, rest₃⟩, more, eq⟩ := Option.bind_eq_some_iff.mp reads
        cases eq
        obtain ⟨parts, some, length, tail, each⟩ := ih more
        refine ⟨part' :: parts, List.cons_ne_nil _ _, ?_, ?_, List.forall_mem_cons.mpr ⟨is', each⟩⟩
        · rw [List.length_cons, List.length_cons, length]
        · obtain ⟨next, others, rfl⟩ := List.exists_cons_of_ne_nil some
          rw [front, isComma, tail]
          exact (List.append_assoc _ (',' :: commas _) _).symm
      · cases reads

theorem spelt_readList? {α β : Type} {spells : α → β → Prop} {text : β → List Char}
    {item : List Char → Option (α × List Char)} (spelt : Spelt spells text item)
    (blanks : TakesBlanks spells text) {close : Char} {input rest : List Char} {xs : List α}
    (reads : readList? item close input = some (xs, rest)) :
    (xs = [] ∧ ∃ blanks, IsBlank blanks ∧ input = blanks ++ close :: rest) ∨
      ∃ parts : List β, xs.length = parts.length ∧ input = commas (parts.map text) ++ close :: rest ∧
        ∀ p ∈ xs.zip parts, spells p.1 p.2 := by
  rw [readList?] at reads
  split at reads
  · cases reads
  · next c rest' remaining =>
    split at reads
    · next closes =>
      cases reads
      obtain ⟨before, blank, eq⟩ := exists_blanks input
      rw [remaining, closes] at eq
      exact .inl ⟨rfl, before, blank, eq⟩
    · obtain ⟨parts, _, length, eq, each⟩ := spelt_readMore? spelt blanks close input reads
      exact .inr ⟨parts, length, eq, each⟩

/-! ## Values -/

section Values

variable {number? : NumberText → Option Float}

theorem takesBlanks_spells : TakesBlanks (Spells number?) id :=
  fun blank is blank' => ⟨_, rfl, .blanks blank is blank'⟩

/-- A name and a value spell a member. -/
def SpellsMember (number? : NumberText → Option Float) (member : String × Document)
    (part : List Char × List Char) : Prop :=
  SpellsName member.1 part.1 ∧ Spells number? member.2 part.2

theorem takesBlanks_spellsMember :
    TakesBlanks (SpellsMember number?) fun part => part.1 ++ ':' :: part.2 := by
  intro member before after part blank is blank'
  obtain ⟨name, value⟩ := part
  obtain ⟨isName, isValue⟩ := is
  obtain ⟨blank₁, isText, blank₂⟩ := isName
  rename_i before₁ quoted after₁
  refine ⟨(before ++ before₁ ++ (quoted ++ after₁), [] ++ (value ++ after)), by simp, ?_, ?_⟩
  · exact .intro (blank.append blank₁) isText blank₂
  · exact .blanks isBlank_nil isValue blank'

theorem spellsMember_of_readMember? {value : List Char → Option (Document × List Char)}
    (spelt : Spelt (Spells number?) id value) :
    Spelt (SpellsMember number?) (fun part => part.1 ++ ':' :: part.2)
      (readMember? .strict value) := by
  intro input rest member reads
  obtain ⟨⟨name, rest₁⟩, readsName, reads⟩ := Option.bind_eq_some_iff.mp reads
  obtain ⟨⟨document, rest₂⟩, readsValue, eq⟩ := Option.bind_eq_some_iff.mp reads
  cases eq
  obtain ⟨⟨chars, rest₃⟩, readsQuoted, reads⟩ := Option.bind_eq_some_iff.mp readsName
  obtain ⟨rest₄, readsColon, eq⟩ := Option.bind_eq_some_iff.mp reads
  cases eq
  obtain ⟨part, rfl, isText⟩ := spellsText_of_readQuoted? readsQuoted
  obtain ⟨after, blank, eq₁⟩ := exists_blanks rest₃
  obtain ⟨before, blank', eq₂⟩ := exists_blanks rest₄
  obtain ⟨valuePart, eq₃, isValue⟩ := spelt readsValue
  have colon := eq_append_of_readWord? readsColon
  refine ⟨([] ++ (part ++ after), before ++ (valuePart ++ [])), ?_, ?_, ?_⟩
  · rw [eq₁, colon, eq₂, eq₃]
    simp
  · refine .intro isBlank_nil ?_ blank
    rw [String.toList_ofList]
    exact isText
  · exact .blanks blank' isValue isBlank_nil

end Values

theorem spelt_readValue? (fuel : List Char) :
    Spelt (Spells (NumberText.value? .strict)) id (readValue? .strict fuel) := by
  induction fuel with
  | nil => intro input rest d reads; cases input <;> cases reads
  | cons _ fuel ih =>
    intro input rest d reads
    cases input with
    | nil => cases reads
    | cons c input =>
      rw [readValue?] at reads
      split at reads
      · next isArray =>
        obtain ⟨⟨items, rest₁⟩, inside, eq⟩ := Option.bind_eq_some_iff.mp reads
        cases eq
        rw [isArray]
        rcases spelt_readList? ih takesBlanks_spells inside with
          ⟨rfl, blanks, blank, rfl⟩ | ⟨parts, length, rfl, each⟩
        · exact ⟨'[' :: (blanks ++ [']']), by simp, .emptyArray blank⟩
        · exact ⟨'[' :: (commas parts ++ [']']), by simp, .array length each⟩
      split at reads
      · next isObject =>
        obtain ⟨⟨members, rest₁⟩, inside, eq⟩ := Option.bind_eq_some_iff.mp reads
        cases eq
        rw [isObject]
        rcases spelt_readList? (spellsMember_of_readMember? ih) takesBlanks_spellsMember inside with
          ⟨rfl, blanks, blank, rfl⟩ | ⟨parts, length, rfl, each⟩
        · exact ⟨'\x7b' :: (blanks ++ ['\x7d']), by simp, .emptyObject blank⟩
        · exact ⟨_, by simp, .object length (fun p mem => (each p mem).1) fun p mem => (each p mem).2⟩
      split at reads
      · obtain ⟨⟨content, rest₁⟩, inside, eq⟩ := Option.bind_eq_some_iff.mp reads
        cases eq
        obtain ⟨part, taken, isText⟩ := spellsText_of_readQuoted? inside
        refine ⟨part, taken, .text ?_⟩
        rw [String.toList_ofList]
        exact isText
      split at reads
      · obtain ⟨rest₁, word, eq⟩ := Option.bind_eq_some_iff.mp reads
        cases eq
        exact ⟨_, eq_append_of_readWord? word, .null⟩
      split at reads
      · obtain ⟨rest₁, word, eq⟩ := Option.bind_eq_some_iff.mp reads
        cases eq
        exact ⟨_, eq_append_of_readWord? word, .bool true⟩
      split at reads
      · obtain ⟨rest₁, word, eq⟩ := Option.bind_eq_some_iff.mp reads
        cases eq
        exact ⟨_, eq_append_of_readWord? word, .bool false⟩
      · obtain ⟨⟨x, rest₁⟩, number, eq⟩ := Option.bind_eq_some_iff.mp reads
        cases eq
        obtain ⟨⟨n, rest₂⟩, text, eq⟩ := Option.bind_eq_some_iff.mp number
        obtain ⟨y, value, eq⟩ := Option.bind_eq_some_iff.mp eq
        cases eq
        obtain ⟨part, taken, is⟩ := spellsNumber_of_readNumberText? text
        exact ⟨part, taken, .number is value⟩

/-- A text that has a tree spells it. -/
theorem spells_of_read? {text : List Char} {d : Document} (reads : Document.read? text = some d) :
    Spells (NumberText.value? .strict) d text := by
  obtain ⟨⟨d', rest⟩, value, eq⟩ := Option.bind_eq_some_iff.mp reads
  obtain ⟨part, taken, is⟩ := spelt_readValue? text value
  obtain ⟨before, blank, front⟩ := exists_blanks text
  obtain ⟨after, blank', rear⟩ := exists_blanks rest
  dsimp only at eq
  split at eq
  · next none =>
    cases eq
    rw [List.isEmpty_iff.mp none, List.append_nil] at rear
    have whole : text = before ++ (part ++ after) := by
      rw [front, taken, rear]; rfl
    rw [whole]
    exact .blanks blank is blank'
  · cases eq

end ValueMachine.Json
