import ValueMachine.Proofs.Json.Grammar

/-!
# Points of a text

What a reader of JSON knows that goes from left to right, one character at a time: the arrays and
objects around the point where it stands, and what may follow there. It knows no trees and no limit on
depth, and it stops at the first character that no well-formed text has there. Half a surrogate pair
is well-formed.

Results:
* `nestingFrom_of_step?`: what one character does to the nesting;
* `around_le_nestingFrom`, `exists_around_eq`: the nesting is the most that is open at a point.
-/

namespace ValueMachine.Json

/-! ## Parts of values -/

inductive Enclosure where
  | array
  | object
  deriving DecidableEq

inductive Word where
  | null
  | true
  | false
  deriving DecidableEq

def Word.text : Word → List Char
  | .null => "null".toList
  | .true => "true".toList
  | .false => "false".toList

/-- What was read last of a number. -/
inductive NumberPart where
  | minus
  | zero
  | whole
  | point
  | fraction
  | mark
  | markSign
  | power
  deriving DecidableEq

namespace NumberPart

/-- The number goes on with this character. -/
def next? (part : NumberPart) (c : Char) : Option NumberPart :=
  if c.isDigit then
    match part with
    | .minus => some (if c = '0' then .zero else .whole)
    | .zero => none
    | .whole => some .whole
    | .point | .fraction => some .fraction
    | .mark | .markSign | .power => some .power
  else if c = '.' then
    match part with
    | .zero | .whole => some .point
    | _ => none
  else if c = 'e' ∨ c = 'E' then
    match part with
    | .zero | .whole | .fraction => some .mark
    | _ => none
  else if c = '+' ∨ c = '-' then
    match part with
    | .mark => some .markSign
    | _ => none
  else none

/-- The number may end here. -/
def mayEnd : NumberPart → Bool
  | .zero | .whole | .fraction | .power => true
  | _ => false

end NumberPart

/-- What was read last between quotation marks; of a code, so many digits are missing after the next. -/
inductive QuotedPart where
  | plain
  | slash
  | code (missing : Nat)
  deriving DecidableEq

/-- The text goes on with this character, which does not end it. -/
def QuotedPart.next? : QuotedPart → Char → Option QuotedPart
  | .plain, c => if c = '\\' then some .slash else if c.toNat < 0x20 then none else some .plain
  | .slash, c => if c = 'u' then some (.code 3) else (shortEscape? c).map fun _ => .plain
  | .code missing, c =>
    (hexValue? c).map fun _ => match missing with | 0 => .plain | missing + 1 => .code missing

/-! ## Points -/

/-- What a point is in, or what is to follow it. -/
inductive Phase where
  /-- A value. -/
  | value
  /-- The first item of an array, or its end. -/
  | item
  /-- The first name of an object, or its end. -/
  | member
  /-- The next name of an object. -/
  | name
  | colon
  /-- A comma, or the end of what is around the point. -/
  | ended
  | word (word : Word) (read : Nat)
  | number (part : NumberPart)
  | quoted (isName : Bool) (part : QuotedPart)
  deriving DecidableEq

/-- The value before the point may be over. -/
def Phase.mayEnd : Phase → Bool
  | .ended => true
  | .word w read => w.text.length ≤ read
  | .number part => part.mayEnd
  | _ => false

/-- How brackets count at the point. -/
def Phase.surroundings : Phase → Surroundings
  | .quoted _ .slash => .escaped
  | .quoted _ _ => .quoted
  | _ => .outside

structure Point where
  around : List Enclosure
  phase : Phase
  deriving DecidableEq

namespace Point

/-- A value begins with this character. -/
def begin? (around : List Enclosure) (c : Char) : Option Point :=
  if c = '[' then some ⟨.array :: around, .item⟩
  else if c = '\x7b' then some ⟨.object :: around, .member⟩
  else if c = '"' then some ⟨around, .quoted false .plain⟩
  else if c = 'n' then some ⟨around, .word .null 1⟩
  else if c = 't' then some ⟨around, .word .true 1⟩
  else if c = 'f' then some ⟨around, .word .false 1⟩
  else if c = '-' then some ⟨around, .number .minus⟩
  else (NumberPart.minus.next? c).map fun part => ⟨around, .number part⟩

/-- What is around the point goes on or ends with this character. -/
def continue? (around : List Enclosure) (c : Char) : Option Point :=
  if isBlank c then some ⟨around, .ended⟩
  else match around with
    | [] => none
    | .array :: outer =>
      if c = ',' then some ⟨around, .value⟩ else if c = ']' then some ⟨outer, .ended⟩ else none
    | .object :: outer =>
      if c = ',' then some ⟨around, .name⟩ else if c = '\x7d' then some ⟨outer, .ended⟩ else none

/-- A quoted text begins with this character. -/
def beginName? (around : List Enclosure) (c : Char) : Option Point :=
  if c = '"' then some ⟨around, .quoted true .plain⟩ else none

/-- The point after the next character. -/
def step? (p : Point) (c : Char) : Option Point :=
  match p.phase with
  | .value => if isBlank c then some p else begin? p.around c
  | .item =>
    if isBlank c then some p else if c = ']' then continue? p.around c else begin? p.around c
  | .member =>
    if isBlank c then some p else if c = '\x7d' then continue? p.around c else beginName? p.around c
  | .name => if isBlank c then some p else beginName? p.around c
  | .colon => if isBlank c then some p else if c = ':' then some ⟨p.around, .value⟩ else none
  | .ended => continue? p.around c
  | .word word read =>
    if word.text[read]? = some c then some ⟨p.around, .word word (read + 1)⟩
    else if word.text.length ≤ read then continue? p.around c else none
  | .number part =>
    match part.next? c with
    | some part => some ⟨p.around, .number part⟩
    | none => if part.mayEnd then continue? p.around c else none
  | .quoted isName part =>
    if part = .plain ∧ c = '"' then some ⟨p.around, if isName then .colon else .ended⟩
    else (part.next? c).map fun part => ⟨p.around, .quoted isName part⟩

/-- The point after the text, if the reader comes there. -/
def after? (p : Point) (text : List Char) : Option Point := text.foldlM step? p

/-- The point before the first character. -/
def start : Point := ⟨[], .value⟩

@[simp] theorem after?_nil (p : Point) : p.after? [] = some p := rfl

@[simp] theorem after?_cons (p : Point) (c : Char) (text : List Char) :
    p.after? (c :: text) = (p.step? c).bind (·.after? text) := rfl

theorem after?_append (p : Point) (text text' : List Char) :
    p.after? (text ++ text') = (p.after? text).bind (·.after? text') :=
  List.foldlM_append

end Point

/-! ## Points and nesting -/

/-- A character that is neither a bracket nor a quotation mark. -/
def IsFlat (c : Char) : Prop := ∀ depth text,
  nestingFrom .outside depth (c :: text) = nestingFrom .outside depth text

theorem isFlat_of_isBlank {c : Char} (blank : isBlank c = true) : IsFlat c := fun depth text =>
  IsBlank.nestingFrom_eq (List.forall_mem_singleton.mpr blank) depth text

theorem isFlat_of_isNumeral {c : Char} (numeral : isNumeral c = true) : IsFlat c := fun depth text =>
  nestingFrom_numeral depth (List.forall_mem_singleton.mpr numeral) text

theorem isFlat_of_word {word : Word} {read : Nat} {c : Char} (next : word.text[read]? = some c) :
    IsFlat c := by
  have letters : ∀ c ∈ word.text, c ≠ '"' ∧ c ≠ '[' ∧ c ≠ '\x7b' ∧ c ≠ ']' ∧ c ≠ '\x7d' := by
    cases word <;> simp [Word.text]
  have letter := letters c (List.mem_of_getElem? next)
  intro depth text
  simp [nestingFrom, letter]

theorem NumberPart.isNumeral_of_next? {part part' : NumberPart} {c : Char}
    (next : part.next? c = some part') : isNumeral c = true := by
  rw [NumberPart.next?.eq_def] at next
  split at next
  · next digit => exact isNumeral_of_isDigit digit
  split at next
  · next is => subst is; rfl
  split at next
  · next is => rcases is with rfl | rfl <;> rfl
  split at next
  · next is => rcases is with rfl | rfl <;> rfl
  · cases next

namespace Point

/-- The most that is open at a point of the text that follows. -/
def nestingFrom (p : Point) (text : List Char) : Nat :=
  Json.nestingFrom p.phase.surroundings p.around.length text

theorem le_nestingFrom (p : Point) (text : List Char) : p.around.length ≤ p.nestingFrom text :=
  Json.le_nestingFrom _ _ _

/-- A character after which no more and no less is open, and the quotation marks count as before. -/
theorem nestingFrom_of_isFlat {c : Char} (flat : IsFlat c) {around : List Enclosure} {phase : Phase}
    (outside : phase.surroundings = .outside) (text : List Char) :
    Json.nestingFrom .outside around.length (c :: text) =
      max around.length (Point.nestingFrom ⟨around, phase⟩ text) := by
  rw [flat, nestingFrom, outside]
  exact (Nat.max_eq_right (Json.le_nestingFrom _ _ _)).symm

theorem nestingFrom_of_begin? {around : List Enclosure} {c : Char} {p : Point}
    (begins : begin? around c = some p) (text : List Char) :
    Json.nestingFrom .outside around.length (c :: text) =
      max around.length (p.nestingFrom text) := by
  have le (place : Surroundings) (depth : Nat) (more : around.length ≤ depth) :
      Json.nestingFrom place depth text = max around.length (Json.nestingFrom place depth text) :=
    (Nat.max_eq_right (more.trans (Json.le_nestingFrom place depth text))).symm
  rw [begin?] at begins
  split at begins
  · next is => cases begins; subst is; exact le _ _ (Nat.le_succ _)
  split at begins
  · next is => cases begins; subst is; exact le _ _ (Nat.le_succ _)
  split at begins
  · next is => cases begins; subst is; exact le _ _ (Nat.le_refl _)
  split at begins
  · next is => cases begins; subst is; exact le _ _ (Nat.le_refl _)
  split at begins
  · next is => cases begins; subst is; exact le _ _ (Nat.le_refl _)
  split at begins
  · next is => cases begins; subst is; exact le _ _ (Nat.le_refl _)
  split at begins
  · next is => cases begins; subst is; exact le _ _ (Nat.le_refl _)
  · obtain ⟨part, next, rfl⟩ := Option.map_eq_some_iff.mp begins
    exact nestingFrom_of_isFlat (isFlat_of_isNumeral (NumberPart.isNumeral_of_next? next)) rfl text

theorem nestingFrom_of_beginName? {around : List Enclosure} {c : Char} {p : Point}
    (begins : beginName? around c = some p) (text : List Char) :
    Json.nestingFrom .outside around.length (c :: text) =
      max around.length (p.nestingFrom text) := by
  rw [beginName?] at begins
  split at begins
  · next is =>
    cases begins; subst is
    exact (Nat.max_eq_right (Json.le_nestingFrom .quoted around.length text)).symm
  · cases begins

theorem nestingFrom_of_continue? {around : List Enclosure} {c : Char} {p : Point}
    (continues : continue? around c = some p) (text : List Char) :
    Json.nestingFrom .outside around.length (c :: text) =
      max around.length (p.nestingFrom text) := by
  rw [continue?.eq_def] at continues
  split at continues
  · next blank => cases continues; exact nestingFrom_of_isFlat (isFlat_of_isBlank blank) rfl text
  split at continues
  · cases continues
  · split at continues
    · next is => cases continues; subst is; exact nestingFrom_of_isFlat (fun _ _ => rfl) rfl text
    split at continues
    · next is => cases continues; subst is; rfl
    · cases continues
  · split at continues
    · next is => cases continues; subst is; exact nestingFrom_of_isFlat (fun _ _ => rfl) rfl text
    split at continues
    · next is => cases continues; subst is; rfl
    · cases continues

/-- Inside quotation marks nothing is opened or closed. -/
theorem nestingFrom_of_next? {part part' : QuotedPart} {c : Char} (next : part.next? c = some part')
    (notEnd : ¬(part = .plain ∧ c = '"')) (isName : Bool) (depth : Nat) (text : List Char) :
    Json.nestingFrom (Phase.quoted isName part).surroundings depth (c :: text) =
      Json.nestingFrom (Phase.quoted isName part').surroundings depth text := by
  cases part with
  | plain =>
    have notMark : c ≠ '"' := fun is => notEnd ⟨rfl, is⟩
    rw [QuotedPart.next?] at next
    split at next
    · next is => cases next; subst is; rfl
    · next notSlash =>
      split at next
      · cases next
      · cases next
        simp [Phase.surroundings, Json.nestingFrom, notMark, notSlash]
  | slash =>
    rw [QuotedPart.next?] at next
    split at next
    · cases next; rfl
    · obtain ⟨_, _, rfl⟩ := Option.map_eq_some_iff.mp next
      rfl
  | code missing =>
    obtain ⟨_, value, eq⟩ := Option.map_eq_some_iff.mp next
    have other : c ≠ '\\' ∧ c ≠ '"' := by
      constructor <;> rintro rfl <;> cases value
    have plain : (Phase.quoted isName part').surroundings = .quoted := by
      subst eq; cases missing <;> rfl
    rw [plain, Phase.surroundings, Json.nestingFrom, if_neg other.1, if_neg other.2]
    exact QuotedPart.noConfusion

/-- One character: the nesting is that of the rest, or what is open before it. -/
theorem nestingFrom_of_step? {p p' : Point} {c : Char} (steps : p.step? c = some p')
    (text : List Char) :
    p.nestingFrom (c :: text) = max p.around.length (p'.nestingFrom text) := by
  obtain ⟨around, phase⟩ := p
  rw [step?.eq_def] at steps
  cases phase with
  | value =>
    dsimp only at steps
    split at steps
    · next blank => cases steps; exact nestingFrom_of_isFlat (isFlat_of_isBlank blank) rfl text
    · exact nestingFrom_of_begin? steps text
  | item =>
    dsimp only at steps
    split at steps
    · next blank => cases steps; exact nestingFrom_of_isFlat (isFlat_of_isBlank blank) rfl text
    split at steps
    · exact nestingFrom_of_continue? steps text
    · exact nestingFrom_of_begin? steps text
  | member =>
    dsimp only at steps
    split at steps
    · next blank => cases steps; exact nestingFrom_of_isFlat (isFlat_of_isBlank blank) rfl text
    split at steps
    · exact nestingFrom_of_continue? steps text
    · exact nestingFrom_of_beginName? steps text
  | name =>
    dsimp only at steps
    split at steps
    · next blank => cases steps; exact nestingFrom_of_isFlat (isFlat_of_isBlank blank) rfl text
    · exact nestingFrom_of_beginName? steps text
  | colon =>
    dsimp only at steps
    split at steps
    · next blank => cases steps; exact nestingFrom_of_isFlat (isFlat_of_isBlank blank) rfl text
    split at steps
    · next is => cases steps; subst is; exact nestingFrom_of_isFlat (fun _ _ => rfl) rfl text
    · cases steps
  | ended => exact nestingFrom_of_continue? steps text
  | word word read =>
    dsimp only at steps
    split at steps
    · next next => cases steps; exact nestingFrom_of_isFlat (isFlat_of_word next) rfl text
    split at steps
    · exact nestingFrom_of_continue? steps text
    · cases steps
  | number part =>
    dsimp only at steps
    split at steps
    · next next =>
      cases steps
      exact nestingFrom_of_isFlat (isFlat_of_isNumeral (NumberPart.isNumeral_of_next? next)) rfl text
    split at steps
    · exact nestingFrom_of_continue? steps text
    · cases steps
  | quoted isName part =>
    dsimp only at steps
    split at steps
    · next ends =>
      cases steps
      obtain ⟨rfl, rfl⟩ := ends
      have outside : (if isName then Phase.colon else .ended).surroundings = .outside := by
        cases isName <;> rfl
      rw [nestingFrom, nestingFrom, outside]
      exact (Nat.max_eq_right (Json.le_nestingFrom .outside around.length text)).symm
    · next notEnd =>
      obtain ⟨part', next, rfl⟩ := Option.map_eq_some_iff.mp steps
      rw [nestingFrom, nestingFrom_of_next? next notEnd]
      exact (Nat.max_eq_right (Json.le_nestingFrom _ _ _)).symm

/-- At no point of a text is more open than its nesting, whatever follows the point. -/
theorem around_le_nestingFrom {p p' : Point} {text : List Char} (reaches : p.after? text = some p')
    (rest : List Char) : p'.around.length ≤ p.nestingFrom (text ++ rest) := by
  induction text generalizing p with
  | nil =>
    cases reaches
    exact le_nestingFrom _ rest
  | cons c text ih =>
    obtain ⟨q, steps, reaches⟩ := Option.bind_eq_some_iff.mp reaches
    rw [List.cons_append, nestingFrom_of_step? steps]
    exact (ih reaches).trans (Nat.le_max_right _ _)

/-- At some point of a text that the reader goes through, as much is open as its nesting. -/
theorem exists_around_eq {p p' : Point} {text : List Char} (reaches : p.after? text = some p') :
    ∃ before q, before <+: text ∧ p.after? before = some q ∧ q.around.length = p.nestingFrom text := by
  induction text generalizing p with
  | nil =>
    refine ⟨[], p, List.prefix_refl _, rfl, ?_⟩
    rw [nestingFrom]
    cases p.phase.surroundings <;> rfl
  | cons c text ih =>
    obtain ⟨q, steps, reaches⟩ := Option.bind_eq_some_iff.mp reaches
    rw [nestingFrom_of_step? steps]
    rcases Nat.le_total (q.nestingFrom text) p.around.length with here | later
    · exact ⟨[], p, List.nil_prefix, rfl, (Nat.max_eq_left here).symm⟩
    · obtain ⟨before, q', starts, reaches', eq⟩ := ih reaches
      refine ⟨c :: before, q', List.cons_prefix_cons.mpr ⟨rfl, starts⟩, ?_, ?_⟩
      · rw [after?_cons, steps]
        exact reaches'
      · rw [eq, Nat.max_eq_right later]

end Point

end ValueMachine.Json
