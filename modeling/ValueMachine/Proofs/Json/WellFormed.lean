import ValueMachine.Proofs.Json.Points

/-!
# Well-formed texts

A text is well-formed if a reader comes to its end and finds all closed there.

Results:
* `Spells.passes`: a reader comes from the beginning to the end of a value;
* `Spells.isWellFormed`: every text that spells a tree is well-formed.
-/

namespace ValueMachine.Json

/-- A reader comes to the end of the text, and nothing is open there. -/
def IsWellFormed (text : List Char) : Prop :=
  ∃ p : Point, Point.start.after? text = some p ∧ p.around = [] ∧ p.phase.mayEnd = true

/-! ## Phases -/

namespace Phase

def BeginsValue (phase : Phase) : Prop := phase = .value ∨ phase = .item

def BeginsName (phase : Phase) : Prop := phase = .member ∨ phase = .name

def Ends (phase : Phase) : Prop := phase.mayEnd = true

/-- Blanks change nothing. -/
def IsBetween (phase : Phase) : Prop :=
  phase.BeginsValue ∨ phase.BeginsName ∨ phase = .colon ∨ phase = .ended

end Phase

open Phase (BeginsValue BeginsName Ends IsBetween)

/-- From each of these phases the text leads to one of those, with the same open. -/
def Passes (before after : Phase → Prop) (text : List Char) : Prop :=
  ∀ around phase, before phase → ∃ phase', after phase' ∧
    Point.after? ⟨around, phase⟩ text = some ⟨around, phase'⟩

section Passes

variable {P Q R : Phase → Prop} {text text' : List Char} {c : Char}

theorem passes_nil : Passes P P [] := fun _ phase holds => ⟨phase, holds, rfl⟩

theorem Passes.append (first : Passes P Q text) (second : Passes Q R text') :
    Passes P R (text ++ text') := by
  intro around phase holds
  obtain ⟨phase₁, holds₁, reaches₁⟩ := first around phase holds
  obtain ⟨phase₂, holds₂, reaches₂⟩ := second around phase₁ holds₁
  refine ⟨phase₂, holds₂, ?_⟩
  rw [Point.after?_append, reaches₁]
  exact reaches₂

/-- The first character alone. -/
theorem Passes.cons (first : ∀ around phase, P phase → ∃ phase', Q phase' ∧
      Point.step? ⟨around, phase⟩ c = some ⟨around, phase'⟩) (second : Passes Q R text) :
    Passes P R (c :: text) := by
  intro around phase holds
  obtain ⟨phase₁, holds₁, steps⟩ := first around phase holds
  obtain ⟨phase₂, holds₂, reaches⟩ := second around phase₁ holds₁
  refine ⟨phase₂, holds₂, ?_⟩
  rw [Point.after?_cons, steps]
  exact reaches

/-- Less is said of the phase after the text. -/
theorem Passes.mono (passes : Passes P Q text) (more : ∀ phase, Q phase → R phase) :
    Passes P R text := by
  intro around phase holds
  obtain ⟨phase', holds', reaches⟩ := passes around phase holds
  exact ⟨phase', more phase' holds', reaches⟩

end Passes

/-! ## Blanks -/

theorem step?_blank {around : List Enclosure} {phase : Phase} {c : Char} (between : phase.IsBetween)
    (blank : isBlank c = true) : Point.step? ⟨around, phase⟩ c = some ⟨around, phase⟩ := by
  rcases between with (rfl | rfl) | (rfl | rfl) | rfl | rfl
  all_goals simp [Point.step?, Point.continue?, blank]

theorem IsBlank.after?_eq {text : List Char} (blank : IsBlank text) {around : List Enclosure}
    {phase : Phase} (between : phase.IsBetween) :
    Point.after? ⟨around, phase⟩ text = some ⟨around, phase⟩ := by
  induction text with
  | nil => rfl
  | cons c text ih =>
    obtain ⟨first, others⟩ := List.forall_mem_cons.mp blank
    rw [Point.after?_cons, step?_blank between first]
    exact ih others

theorem IsBlank.passes {text : List Char} (blank : IsBlank text) {phases : Phase → Prop}
    (between : ∀ phase, phases phase → phase.IsBetween) : Passes phases phases text :=
  fun _ phase holds => ⟨phase, holds, blank.after?_eq (between phase holds)⟩

/-! ## Ends -/

/-- A value that may be over is over at a character that no number has. -/
theorem step?_of_ends {around : List Enclosure} {phase : Phase} {c : Char} (ends : phase.Ends)
    (other : isNumeral c = false) :
    Point.step? ⟨around, phase⟩ c = Point.continue? around c := by
  cases phase with
  | ended => rfl
  | word w read =>
    have finished : w.text.length ≤ read := of_decide_eq_true ends
    simp [Point.step?, finished]
  | number part =>
    have none : part.next? c = none := by
      rw [Option.eq_none_iff_forall_not_mem]
      intro part' next
      rw [NumberPart.isNumeral_of_next? next] at other
      cases other
    have mayEnd : part.mayEnd = true := ends
    simp [Point.step?, none, mayEnd]
  | _ => cases ends

/-- Blanks after a value. -/
theorem IsBlank.passes_ends {text : List Char} (blank : IsBlank text) : Passes Ends Ends text := by
  cases text with
  | nil => exact passes_nil
  | cons c text =>
    obtain ⟨first, others⟩ := List.forall_mem_cons.mp blank
    refine Passes.cons (Q := (· = .ended)) (fun around phase ends => ⟨.ended, rfl, ?_⟩) ?_
    · rw [step?_of_ends ends (isNumeral_of_isBlank first)]
      simp [Point.continue?, first]
    · rintro around phase rfl
      exact ⟨.ended, rfl, IsBlank.after?_eq others (.inr (.inr (.inr rfl)))⟩

/-! ## Numbers -/

theorem step?_number {around : List Enclosure} {part part' : NumberPart} {c : Char}
    (next : part.next? c = some part') :
    Point.step? ⟨around, .number part⟩ c = some ⟨around, .number part'⟩ := by
  simp [Point.step?, next]

/-- The phase is within a number, after one of these parts. -/
def InNumber (parts : NumberPart → Prop) (phase : Phase) : Prop :=
  ∃ part, parts part ∧ phase = .number part

theorem inNumber_mono {parts parts' : NumberPart → Prop} (more : ∀ part, parts part → parts' part) :
    ∀ phase, InNumber parts phase → InNumber parts' phase :=
  fun _ ⟨part, holds, eq⟩ => ⟨part, more part holds, eq⟩

/-- One more character of a number. -/
theorem Passes.numeral {parts : NumberPart → Prop} {part : NumberPart} {Q : Phase → Prop} {c : Char}
    {text : List Char} (next : ∀ part', parts part' → part'.next? c = some part)
    (passes : Passes (InNumber (· = part)) Q text) : Passes (InNumber parts) Q (c :: text) := by
  refine passes.cons fun around phase ⟨part', holds, eq⟩ => ?_
  subst eq
  exact ⟨.number part, ⟨part, rfl, rfl⟩, step?_number (next part' holds)⟩

/-- Digits do not change the part that they belong to. -/
theorem passes_digits {part : NumberPart}
    (stays : ∀ c : Char, c.isDigit = true → part.next? c = some part) {text : List Char}
    (digits : ∀ c ∈ text, c.isDigit = true) :
    Passes (InNumber (· = part)) (InNumber (· = part)) text := by
  induction text with
  | nil => exact passes_nil
  | cons c text ih =>
    obtain ⟨digit, digits⟩ := List.forall_mem_cons.mp digits
    exact (ih digits).numeral fun part' eq => eq ▸ stays c digit

/-- One digit or more. -/
theorem IsDigits.passes {digits : List Char} (is : IsDigits digits) {parts : NumberPart → Prop}
    {part : NumberPart}
    (first : ∀ c : Char, c.isDigit = true → ∀ part', parts part' → part'.next? c = some part)
    (stays : ∀ c : Char, c.isDigit = true → part.next? c = some part) :
    Passes (InNumber parts) (InNumber (· = part)) digits := by
  obtain ⟨notNil, digits⟩ := is
  obtain ⟨c, text, rfl⟩ := List.exists_cons_of_ne_nil notNil
  obtain ⟨digit, digits⟩ := List.forall_mem_cons.mp digits
  exact (passes_digits stays digits).numeral (first c digit)

theorem IsWhole.passes {whole : List Char} (is : IsWhole whole) :
    Passes (InNumber (· = .minus)) (InNumber fun part => part = .zero ∨ part = .whole) whole := by
  obtain ⟨⟨notNil, digits⟩, zero⟩ := is
  obtain ⟨c, text, rfl⟩ := List.exists_cons_of_ne_nil notNil
  by_cases first : c = '0'
  · rw [zero (congrArg Option.some first)]
    have finished : Passes (InNumber (· = .zero)) (InNumber (· = .zero)) [] := passes_nil
    refine (finished.numeral ?_).mono (inNumber_mono fun part => Or.inl)
    rintro _ rfl
    rfl
  · obtain ⟨digit, digits⟩ := List.forall_mem_cons.mp digits
    have stays : ∀ c : Char, c.isDigit = true → NumberPart.whole.next? c = some .whole :=
      fun c digit => by simp [NumberPart.next?, digit]
    refine ((passes_digits stays digits).numeral ?_).mono (inNumber_mono fun part => Or.inr)
    rintro _ rfl
    simp [NumberPart.next?, digit, first]

theorem SpellsFraction.passes {fraction : Option (List Char)} {text : List Char}
    (is : SpellsFraction fraction text) :
    Passes (InNumber fun part => part = .zero ∨ part = .whole)
      (InNumber fun part => part = .zero ∨ part = .whole ∨ part = .fraction) text := by
  cases is with
  | none => exact passes_nil.mono (inNumber_mono fun part => Or.imp_right Or.inl)
  | @digits digits is =>
    have places : Passes (InNumber (· = .point)) (InNumber (· = .fraction)) digits := by
      refine is.passes ?_ fun c digit => by simp [NumberPart.next?, digit]
      rintro c digit _ rfl
      simp [NumberPart.next?, digit]
    refine (places.numeral ?_).mono (inNumber_mono fun part eq => .inr (.inr eq))
    rintro _ (rfl | rfl) <;> rfl

/-- The digits of a power. -/
theorem IsDigits.passes_power {digits : List Char} (is : IsDigits digits) {part : NumberPart}
    (signed : part = .mark ∨ part = .markSign) :
    Passes (InNumber (· = part)) (InNumber (· = .power)) digits := by
  refine is.passes ?_ fun c digit => by simp [NumberPart.next?, digit]
  rintro c digit _ rfl
  rcases signed with rfl | rfl <;> simp [NumberPart.next?, digit]

theorem SpellsExponent.passes {exponent : Option (Bool × List Char)} {text : List Char}
    (is : SpellsExponent exponent text) :
    Passes (InNumber fun part => part = .zero ∨ part = .whole ∨ part = .fraction) Ends text := by
  have ends : ∀ phase, InNumber (· = .power) phase → phase.Ends := by
    rintro _ ⟨_, rfl, rfl⟩
    rfl
  have marked {mark : Char} (isMark : mark = 'e' ∨ mark = 'E') : ∀ part,
      part = .zero ∨ part = .whole ∨ part = .fraction →
        NumberPart.next? part mark = some .mark := by
    rintro _ (rfl | rfl | rfl) <;> rcases isMark with rfl | rfl <;> rfl
  cases is with
  | none =>
    refine passes_nil.mono ?_
    rintro _ ⟨_, rfl | rfl | rfl, rfl⟩ <;> rfl
  | digits isMark is =>
    exact ((is.passes_power (.inl rfl)).mono ends).numeral (marked isMark)
  | plus isMark is =>
    have signed : Passes (InNumber (· = .mark)) Ends _ :=
      ((is.passes_power (.inr rfl)).mono ends).numeral (c := '+') (by rintro _ rfl; rfl)
    exact signed.numeral (marked isMark)
  | minus isMark is =>
    have signed : Passes (InNumber (· = .mark)) Ends _ :=
      ((is.passes_power (.inr rfl)).mono ends).numeral (c := '-') (by rintro _ rfl; rfl)
    exact signed.numeral (marked isMark)

/-! ## Beginnings -/

/-- A value begins with a character that is neither blank nor a closing bracket. -/
theorem step?_of_begins {around : List Enclosure} {phase : Phase} {c : Char}
    (begins : phase.BeginsValue) (dark : isBlank c = false) (notEnd : c ≠ ']') :
    Point.step? ⟨around, phase⟩ c = Point.begin? around c := by
  rcases begins with rfl | rfl <;> simp [Point.step?, dark, notEnd]

/-- The first character of a value that opens nothing. -/
theorem Passes.begin {phase' : Phase} {Q : Phase → Prop} {c : Char} {text : List Char}
    (begins : ∀ around, Point.begin? around c = some ⟨around, phase'⟩) (dark : isBlank c = false)
    (notEnd : c ≠ ']') (passes : Passes (· = phase') Q text) : Passes BeginsValue Q (c :: text) := by
  refine Passes.cons (fun around phase holds => ?_) passes
  exact ⟨phase', rfl, (step?_of_begins holds dark notEnd).trans (begins around)⟩

/-- A number without a sign begins as after a sign. -/
theorem begin?_digit {c : Char} (digit : c.isDigit = true) (around : List Enclosure) :
    Point.begin? around c =
      (NumberPart.minus.next? c).map fun part => ⟨around, .number part⟩ := by
  have other {d : Char} (no : d.isDigit = false) : c ≠ d := by
    rintro rfl
    rw [digit] at no
    cases no
  simp only [Point.begin?]
  rw [if_neg (other rfl), if_neg (other rfl), if_neg (other rfl), if_neg (other rfl),
    if_neg (other rfl), if_neg (other rfl), if_neg (other rfl)]

theorem IsWhole.passes_begins {whole : List Char} (is : IsWhole whole) :
    Passes BeginsValue (InNumber fun part => part = .zero ∨ part = .whole) whole := by
  intro around phase begins
  obtain ⟨phase', holds, reaches⟩ := is.passes around (.number .minus) ⟨.minus, rfl, rfl⟩
  refine ⟨phase', holds, ?_⟩
  obtain ⟨⟨notNil, digits⟩, -⟩ := is
  obtain ⟨c, text, rfl⟩ := List.exists_cons_of_ne_nil notNil
  have digit := digits c List.mem_cons_self
  have numeral := isNumeral_of_isDigit digit
  -- the first digit leads from the beginning to where it leads after a sign
  have same : Point.step? ⟨around, phase⟩ c = Point.step? ⟨around, .number .minus⟩ c := by
    rw [step?_of_begins begins (isBlank_of_isNumeral numeral) (ne_of_isNumeral numeral rfl),
      begin?_digit digit]
    simp only [Point.step?]
    cases NumberPart.minus.next? c <;> rfl
  rw [Point.after?_cons, same]
  exact reaches

theorem SpellsNumber.passes {n : NumberText} {text : List Char} (is : SpellsNumber n text) :
    Passes BeginsValue Ends text := by
  obtain ⟨isWhole, isFraction, isExponent⟩ := is
  rename_i negative whole fraction exponent fractionText exponentText
  refine Passes.append (Passes.append ?_ isFraction.passes) isExponent.passes
  cases negative with
  | false => exact isWhole.passes_begins
  | true =>
    have signed : Passes (· = .number .minus) (InNumber fun part => part = .zero ∨ part = .whole)
        whole := by
      rintro around _ rfl
      exact isWhole.passes around _ ⟨.minus, rfl, rfl⟩
    exact signed.begin (fun _ => rfl) rfl (by decide)

theorem passes_word (w : Word) : Passes BeginsValue Ends w.text := by
  rintro around _ (rfl | rfl)
  all_goals exact ⟨.word w w.text.length, decide_eq_true (Nat.le_refl _), by cases w <;> rfl⟩

/-! ## Quoted texts -/

theorem SpellsCode.after?_eq {code : Nat} {digits : List Char} (is : SpellsCode code digits)
    (around : List Enclosure) (isName : Bool) :
    Point.after? ⟨around, .quoted isName (.code 3)⟩ digits =
      some ⟨around, .quoted isName .plain⟩ := by
  obtain ⟨ha, hb, hc, hd⟩ := is
  simp [Point.step?, QuotedPart.next?, ha, hb, hc, hd]

theorem SpellsChar.after?_eq {c : Char} {part : List Char} (is : SpellsChar c part)
    (around : List Enclosure) (isName : Bool) :
    Point.after? ⟨around, .quoted isName .plain⟩ part = some ⟨around, .quoted isName .plain⟩ := by
  have code {digits : List Char} {n : Nat} (is : SpellsCode n digits) :
      Point.after? ⟨around, .quoted isName .plain⟩ ('\\' :: 'u' :: digits) =
        some ⟨around, .quoted isName .plain⟩ := is.after?_eq around isName
  cases is with
  | plain notControl notMark notSlash =>
    simp [Point.step?, QuotedPart.next?, notMark, notSlash, Nat.not_lt.mpr notControl]
  | @short letter _ is =>
    have notCode : letter ≠ 'u' := by
      rintro rfl
      cases is
    simp [Point.step?, QuotedPart.next?, notCode, is]
  | code is => exact code is
  | @pair high low digits digits' is is' =>
    rw [Point.after?_append _ ('\\' :: 'u' :: digits), code is]
    exact code is'

theorem SpellsChars.after?_eq {chars parts : List Char} (is : SpellsChars chars parts)
    (around : List Enclosure) (isName : Bool) :
    Point.after? ⟨around, .quoted isName .plain⟩ parts = some ⟨around, .quoted isName .plain⟩ := by
  induction is with
  | nil => rfl
  | cons first _ ih =>
    rw [Point.after?_append, first.after?_eq]
    exact ih

/-- From the first quotation mark to the last. -/
theorem SpellsText.after?_eq {chars text : List Char} (is : SpellsText chars text) {p : Point}
    (isName : Bool) (begins : p.step? '"' = some ⟨p.around, .quoted isName .plain⟩) :
    p.after? text = some ⟨p.around, if isName then .colon else .ended⟩ := by
  obtain ⟨is⟩ := is
  rw [Point.after?_cons, begins, Option.bind_some, Point.after?_append, is.after?_eq]
  rfl

theorem SpellsText.passes {chars text : List Char} (is : SpellsText chars text) :
    Passes BeginsValue Ends text := by
  intro around phase begins
  refine ⟨.ended, rfl, is.after?_eq false ?_⟩
  exact step?_of_begins begins rfl (by decide)

theorem SpellsName.passes {name : String} {text : List Char} (is : SpellsName name text) :
    Passes BeginsName (· = .colon) text := by
  obtain ⟨blank, is, blank'⟩ := is
  refine (blank.passes fun phase begins => .inr (.inl begins)).append (Passes.append ?_
    (blank'.passes fun phase colon => .inr (.inr (.inl colon))))
  intro around phase begins
  refine ⟨.colon, rfl, is.after?_eq true ?_⟩
  rcases begins with rfl | rfl <;> rfl

/-! ## Lists -/

namespace Enclosure

def opening : Enclosure → Char
  | .array => '['
  | .object => '\x7b'

def close : Enclosure → Char
  | .array => ']'
  | .object => '\x7d'

/-- What follows the opening bracket. -/
def first : Enclosure → Phase
  | .array => .item
  | .object => .member

/-- What follows a comma. -/
def next : Enclosure → Phase
  | .array => .value
  | .object => .name

theorem continue?_comma (enclosure : Enclosure) (outer : List Enclosure) :
    Point.continue? (enclosure :: outer) ',' = some ⟨enclosure :: outer, enclosure.next⟩ := by
  cases enclosure <;> rfl

theorem continue?_close (enclosure : Enclosure) (outer : List Enclosure) :
    Point.continue? (enclosure :: outer) enclosure.close = some ⟨outer, .ended⟩ := by
  cases enclosure <;> rfl

theorem isNumeral_close (enclosure : Enclosure) : isNumeral enclosure.close = false := by
  cases enclosure <;> rfl

theorem step?_close (enclosure : Enclosure) (outer : List Enclosure) :
    Point.step? ⟨enclosure :: outer, enclosure.first⟩ enclosure.close = some ⟨outer, .ended⟩ := by
  cases enclosure <;> rfl

theorem isBetween_first (enclosure : Enclosure) : enclosure.first.IsBetween := by
  cases enclosure
  · exact .inl (.inr rfl)
  · exact .inr (.inl (.inl rfl))

end Enclosure

/-- Items with commas between them, up to the closing bracket. -/
theorem after?_commas {enclosure : Enclosure} {P : Phase → Prop} (next : P enclosure.next)
    {parts : List (List Char)} (some : parts ≠ []) (each : ∀ part ∈ parts, Passes P Ends part)
    (outer : List Enclosure) {phase : Phase} (begins : P phase) :
    Point.after? ⟨enclosure :: outer, phase⟩ (commas parts ++ [enclosure.close]) =
      .some ⟨outer, .ended⟩ := by
  induction parts generalizing phase with
  | nil => exact absurd rfl some
  | cons part parts ih =>
    obtain ⟨first, others⟩ := List.forall_mem_cons.mp each
    obtain ⟨phase', ends, reaches⟩ := first (enclosure :: outer) phase begins
    cases parts with
    | nil =>
      rw [commas, Point.after?_append, reaches, Option.bind_some, Point.after?_cons,
        step?_of_ends ends enclosure.isNumeral_close, enclosure.continue?_close]
      rfl
    | cons part' parts =>
      rw [commas_cons_cons, List.append_assoc, Point.after?_append, reaches, Option.bind_some,
        List.cons_append, Point.after?_cons, step?_of_ends ends rfl, enclosure.continue?_comma]
      exact ih (List.cons_ne_nil _ _) others next

/-- A list with its brackets. -/
theorem Enclosure.passes (enclosure : Enclosure) {text : List Char}
    (reaches : ∀ outer, Point.after? ⟨enclosure :: outer, enclosure.first⟩ text =
      some ⟨outer, .ended⟩) : Passes BeginsValue Ends (enclosure.opening :: text) := by
  intro around phase begins
  have opens : Point.step? ⟨around, phase⟩ enclosure.opening =
      some ⟨enclosure :: around, enclosure.first⟩ := by
    cases enclosure <;> exact step?_of_begins begins rfl (by decide)
  refine ⟨.ended, rfl, ?_⟩
  rw [Point.after?_cons, opens]
  exact reaches around

theorem Enclosure.passes_blanks (enclosure : Enclosure) {blanks : List Char}
    (blank : IsBlank blanks) :
    Passes BeginsValue Ends (enclosure.opening :: (blanks ++ [enclosure.close])) := by
  refine enclosure.passes fun outer => ?_
  rw [Point.after?_append, blank.after?_eq enclosure.isBetween_first, Option.bind_some,
    Point.after?_cons, enclosure.step?_close]
  rfl

theorem Enclosure.passes_commas (enclosure : Enclosure) {P : Phase → Prop}
    (first : P enclosure.first) (next : P enclosure.next) {parts : List (List Char)}
    (each : ∀ part ∈ parts, Passes P Ends part) :
    Passes BeginsValue Ends (enclosure.opening :: (commas parts ++ [enclosure.close])) := by
  cases parts with
  | nil => exact enclosure.passes_blanks isBlank_nil
  | cons part parts =>
    exact enclosure.passes fun outer => after?_commas next (List.cons_ne_nil _ _) each outer first

/-! ## Values -/

/-- From the beginning of a value to its end, and all that is open stays open. -/
theorem Spells.passes {number? : NumberText → Option Float} {d : Document} {text : List Char}
    (spells : Spells number? d text) : Passes BeginsValue Ends text := by
  induction spells with
  | blanks blank _ blank' ih =>
    exact (blank.passes fun phase begins => .inl begins).append (ih.append blank'.passes_ends)
  | null => exact passes_word .null
  | bool b =>
    cases b with
    | false => exact passes_word .false
    | true => exact passes_word .true
  | number is => exact is.passes
  | text is => exact is.passes
  | emptyArray blank => exact Enclosure.array.passes_blanks blank
  | emptyObject blank => exact Enclosure.object.passes_blanks blank
  | array length each ih =>
    exact Enclosure.array.passes_commas (.inr rfl) (.inl rfl) (forall_mem_of_zip length ih)
  | @object members parts length named each ih =>
    have member : ∀ p ∈ members.zip parts, Passes BeginsName Ends (p.2.1 ++ ':' :: p.2.2) := by
      intro p mem
      refine (named p mem).passes.append (Passes.cons ?_ (ih p mem))
      rintro around _ rfl
      exact ⟨.value, .inl rfl, rfl⟩
    refine Enclosure.object.passes_commas (P := BeginsName) (.inl rfl) (.inr rfl) ?_
    exact List.forall_mem_map.mpr (forall_mem_of_zip length member)

/-- Every text that spells a tree is well-formed. -/
theorem Spells.isWellFormed {number? : NumberText → Option Float} {d : Document}
    {text : List Char} (spells : Spells number? d text) : IsWellFormed text := by
  obtain ⟨phase, ends, reaches⟩ := spells.passes [] .value (.inl rfl)
  exact ⟨_, reaches, rfl, ends⟩

end ValueMachine.Json
