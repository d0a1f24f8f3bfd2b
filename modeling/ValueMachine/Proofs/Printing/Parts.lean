import Mathlib.Data.List.TakeWhile
import ValueMachine.Printing.Template

/-!
# The grammar of templates

A template consists of characters and directives. A directive takes as many digits as there are, and
its flag and its point where they can be taken, so that a template can be split in one way only.

Results:
* `Head.read_text`: what stands before the letter of a directive is found again;
* `Splits.unique`, `exists_splits`: every template has one split;
* `segments_eq`: the segments of a template are those of its parts.
-/

namespace ValueMachine.Printing

/-! ## Beginnings of directives -/

/-- What a directive has between its percent sign and its letter: the flag, the digits of the width,
and, after a point, the digits of the precision. -/
structure Head where
  leftAligned : Bool
  width : List Char
  precision : Option (List Char)
  deriving DecidableEq

namespace Head

def flag (leftAligned : Bool) : List Char := if leftAligned then ['-'] else []

def point (precision : Option (List Char)) : List Char :=
  precision.elim [] fun digits => '.' :: digits

def text (head : Head) : List Char := flag head.leftAligned ++ (head.width ++ point head.precision)

def HasDigits (head : Head) : Prop :=
  (∀ c ∈ head.width, c.isDigit = true) ∧ ∀ digits ∈ head.precision, ∀ c ∈ digits, c.isDigit = true

/-- The character after the beginning does not belong to it. -/
def Stops (head : Head) (c : Char) : Prop :=
  c.isDigit = false ∧ (head.precision = none → c ≠ '.') ∧ (head.text = [] → c ≠ '-')

/-- The digits after a point, if there is one. -/
def readPrecision (text : List Char) : Option (List Char) :=
  if text.head? = some '.' then some ((text.drop 1).takeWhile Char.isDigit) else none

/-- The beginning of what follows a percent sign. -/
def read (text : List Char) : Head :=
  let leftAligned : Bool := text.head? = some '-'
  let rest := text.drop (flag leftAligned).length
  let width := rest.takeWhile Char.isDigit
  ⟨leftAligned, width, readPrecision (rest.drop width.length)⟩

/-- What follows does not belong to the beginning. -/
def StopsBefore (head : Head) (rest : List Char) : Prop := ∀ c ∈ rest.head?, head.Stops c

/-! ### What is written is found again -/

theorem takeWhile_digits {digits rest : List Char} (all : ∀ c ∈ digits, c.isDigit = true)
    (stops : ∀ c ∈ rest.head?, c.isDigit = false) :
    (digits ++ rest).takeWhile Char.isDigit = digits := by
  rw [List.takeWhile_append_of_pos all]
  cases rest with
  | nil => rw [List.takeWhile_nil, List.append_nil]
  | cons c rest => rw [List.takeWhile_cons_of_neg (by simp [stops c rfl]), List.append_nil]

variable {leftAligned : Bool} {width : List Char} {precision : Option (List Char)} {rest : List Char}

theorem readPrecision_point (digits : HasDigits ⟨leftAligned, width, precision⟩)
    (stops : StopsBefore ⟨leftAligned, width, precision⟩ rest) :
    readPrecision (point precision ++ rest) = precision := by
  cases precision with
  | none =>
    have other : rest.head? ≠ some '.' := fun is => (stops '.' is).2.1 rfl rfl
    exact if_neg other
  | some places =>
    have all : ∀ c ∈ places, c.isDigit = true := digits.2 places rfl
    exact congrArg some (takeWhile_digits all fun c mem => (stops c mem).1)

/-- The digits of the width end at the point or at the end of the beginning. -/
theorem head?_point (stops : StopsBefore ⟨leftAligned, width, precision⟩ rest) :
    ∀ c ∈ (point precision ++ rest).head?, c.isDigit = false := by
  cases precision with
  | none => exact fun c mem => (stops c mem).1
  | some places =>
    rintro c ⟨⟩
    rfl

/-- A minus is a flag if it is the first character. -/
theorem head?_ne_minus (digits : HasDigits ⟨false, width, precision⟩)
    (stops : StopsBefore ⟨false, width, precision⟩ rest) :
    (width ++ (point precision ++ rest)).head? ≠ some '-' := by
  cases width with
  | cons c width =>
    rintro ⟨⟩
    exact absurd (digits.1 '-' List.mem_cons_self) (by decide)
  | nil =>
    cases precision with
    | some places => rintro ⟨⟩
    | none => exact fun minus => (stops '-' minus).2.2 rfl rfl

/-- A beginning is found again if what follows does not belong to it. -/
theorem read_text {head : Head} (digits : head.HasDigits) (stops : head.StopsBefore rest) :
    read (head.text ++ rest) = head := by
  obtain ⟨leftAligned, width, precision⟩ := head
  have flagged : (decide ((flag leftAligned ++ (width ++ (point precision ++ rest))).head? =
      some '-')) = leftAligned := by
    cases leftAligned with
    | true => rfl
    | false => exact decide_eq_false (head?_ne_minus digits stops)
  rw [text, List.append_assoc, List.append_assoc, read]
  dsimp only
  rw [flagged, List.drop_left, takeWhile_digits digits.1 (head?_point stops), List.drop_left,
    readPrecision_point digits stops]

/-! ### What is found is written -/

theorem hasDigits_read (text : List Char) : (read text).HasDigits := by
  refine ⟨fun c => List.mem_takeWhile_imp, fun digits mem c => ?_⟩
  rw [read, readPrecision] at mem
  split at mem
  · cases mem
    exact List.mem_takeWhile_imp
  · cases mem

theorem drop_takeWhile (p : Char → Bool) (text : List Char) :
    text.drop (text.takeWhile p).length = text.dropWhile p := by
  have split := congrArg (List.drop (text.takeWhile p).length)
    (List.takeWhile_append_dropWhile (p := p) (l := text))
  rw [List.drop_left] at split
  exact split.symm

theorem head?_dropWhile (text : List Char) :
    ∀ c ∈ (text.dropWhile Char.isDigit).head?, c.isDigit = false := by
  intro c mem
  have stops := List.head?_dropWhile_not Char.isDigit text
  rw [show (text.dropWhile Char.isDigit).head? = some c from mem] at stops
  exact stops

theorem flag_append_drop (text : List Char) :
    text = flag (text.head? = some '-') ++ text.drop (flag (text.head? = some '-')).length := by
  by_cases minus : text.head? = some '-'
  · obtain ⟨rest, rfl⟩ := List.head?_eq_some_iff.mp minus
    rfl
  · simp [flag, minus]

/-- After the digits of the width. -/
theorem exists_rest_point {text : List Char} (noDigit : ∀ c ∈ text.head?, c.isDigit = false) :
    ∃ rest, text = point (readPrecision text) ++ rest ∧ ∀ c ∈ rest.head?, c.isDigit = false ∧
      (readPrecision text = none → c ≠ '.' ∧ rest = text) := by
  by_cases pointed : text.head? = some '.'
  · obtain ⟨digits, rfl⟩ := List.head?_eq_some_iff.mp pointed
    exact ⟨digits.dropWhile Char.isDigit, congrArg (List.cons '.')
      List.takeWhile_append_dropWhile.symm, fun c mem => ⟨head?_dropWhile digits c mem, nofun⟩⟩
  · have none : readPrecision text = none := if_neg pointed
    refine ⟨text, by rw [none]; rfl, fun c mem => ⟨noDigit c mem, fun _ => ⟨?_, rfl⟩⟩⟩
    rintro rfl
    exact pointed mem

/-- Every text begins like a directive, and what follows does not belong to the beginning. -/
theorem exists_rest (text : List Char) :
    ∃ rest, text = (read text).text ++ rest ∧ (read text).StopsBefore rest := by
  generalize flagged : decide (text.head? = some '-') = leftAligned
  generalize first : text.drop (flag leftAligned).length = text₁
  have front : text = flag leftAligned ++ text₁ := by
    rw [← first, ← flagged]
    exact flag_append_drop text
  have reads : read text = ⟨leftAligned, text₁.takeWhile Char.isDigit,
      readPrecision (text₁.dropWhile Char.isDigit)⟩ := by
    rw [read, flagged, first, drop_takeWhile]
  obtain ⟨rest, rear, stops⟩ := exists_rest_point (head?_dropWhile text₁)
  refine ⟨rest, ?_, fun c mem => ⟨(stops c mem).1, fun none => ?_, fun empty => ?_⟩⟩
  · rw [reads, Head.text, List.append_assoc, List.append_assoc, ← rear,
      List.takeWhile_append_dropWhile, front]
  · rw [reads] at none
    exact ((stops c mem).2 none).1
  · -- nothing belongs to the beginning, so the character is the first one
    rw [reads, Head.text, List.append_eq_nil_iff, List.append_eq_nil_iff] at empty
    obtain ⟨noFlag, noWidth, noPoint⟩ := empty
    dsimp only at noFlag noWidth noPoint
    have none : readPrecision (text₁.dropWhile Char.isDigit) = none := by
      cases precision : readPrecision (text₁.dropWhile Char.isDigit) with
      | none => rfl
      | some digits =>
        rw [precision] at noPoint
        cases noPoint
    have whole : rest = text := by
      have split := List.takeWhile_append_dropWhile (p := Char.isDigit) (l := text₁)
      rw [noWidth, List.nil_append] at split
      rw [((stops c mem).2 none).2, front, noFlag, split, List.nil_append]
    rintro rfl
    rw [whole] at mem
    have minus : text.head? = some '-' := mem
    rw [← flagged, decide_eq_true minus] at noFlag
    cases noFlag

end Head

/-! ## Parts of templates -/

/-- A part of a template. -/
inductive Part where
  | plain (c : Char)
  | directive (head : Head) (letter : Char)
  /-- The template ends before the letter. -/
  | truncated (head : Head)
  deriving DecidableEq

def Part.text : Part → List Char
  | .plain c => [c]
  | .directive head letter => '%' :: (head.text ++ [letter])
  | .truncated head => '%' :: head.text

/-- The template is split into the parts. -/
inductive Splits : List Part → List Char → Prop
  | nil : Splits [] []
  | plain {c : Char} {parts : List Part} {text : List Char} (notPercent : c ≠ '%')
    (others : Splits parts text) : Splits (.plain c :: parts) (c :: text)
  | directive {head : Head} {letter : Char} {parts : List Part} {text : List Char}
    (digits : head.HasDigits) (stops : head.Stops letter) (others : Splits parts text) :
    Splits (.directive head letter :: parts) ('%' :: (head.text ++ letter :: text))
  | truncated {head : Head} (digits : head.HasDigits) :
    Splits [.truncated head] ('%' :: head.text)

/-- The parts are the text, one after the other. -/
theorem Splits.flatMap_text {parts : List Part} {template : List Char}
    (splits : Splits parts template) : parts.flatMap Part.text = template := by
  induction splits with
  | nil => rfl
  | plain _ _ ih => rw [List.flatMap_cons, ih]; rfl
  | directive _ _ _ ih => rw [List.flatMap_cons, ih]; simp [Part.text]
  | truncated => rw [List.flatMap_singleton]; rfl

theorem Head.Stops.before {head : Head} {letter : Char} (stops : head.Stops letter)
    (text : List Char) : head.StopsBefore (letter :: text) := by
  rintro _ ⟨⟩
  exact stops

/-- After a percent sign the beginning and the rest are determined. -/
theorem Head.eq_of_text_append {head head' : Head} {rest rest' : List Char}
    (eq : head.text ++ rest = head'.text ++ rest') (digits : head.HasDigits)
    (stops : head.StopsBefore rest) (digits' : head'.HasDigits) (stops' : head'.StopsBefore rest') :
    head = head' ∧ rest = rest' := by
  have same : head = head' := by
    rw [← read_text digits stops, eq, read_text digits' stops']
  exact ⟨same, List.append_cancel_left (same ▸ eq)⟩

theorem Head.stopsBefore_nil (head : Head) : head.StopsBefore [] := nofun

/-- A template is split in one way only. -/
theorem Splits.unique {parts parts' : List Part} {template : List Char}
    (splits : Splits parts template) (splits' : Splits parts' template) : parts = parts' := by
  induction splits generalizing parts' with
  | nil => cases splits'; rfl
  | plain notPercent _ ih =>
    cases splits' with
    | plain _ others' => rw [ih others']
    | directive => exact absurd rfl notPercent
    | truncated => exact absurd rfl notPercent
  | @directive head letter parts text digits stops _ ih =>
    generalize whole : '%' :: (head.text ++ letter :: text) = template at splits'
    cases splits' with
    | nil => cases whole
    | plain notPercent => exact absurd (List.cons.inj whole).1.symm notPercent
    | directive digits' stops' others' =>
      obtain ⟨rfl, eq⟩ := Head.eq_of_text_append (List.cons.inj whole).2 digits (stops.before _)
        digits' (stops'.before _)
      cases eq
      rw [ih others']
    | @truncated head' digits' =>
      have whole := (List.cons.inj whole).2.trans (List.append_nil head'.text).symm
      obtain ⟨_, eq⟩ := Head.eq_of_text_append whole digits (stops.before _) digits'
        head'.stopsBefore_nil
      cases eq
  | @truncated head digits =>
    generalize whole : '%' :: head.text = template at splits'
    cases splits' with
    | nil => cases whole
    | plain notPercent => exact absurd (List.cons.inj whole).1.symm notPercent
    | directive digits' stops' =>
      have whole := (List.append_nil head.text).trans (List.cons.inj whole).2
      obtain ⟨_, eq⟩ := Head.eq_of_text_append whole digits head.stopsBefore_nil digits'
        (stops'.before _)
      cases eq
    | @truncated head' digits' =>
      have whole := ((List.append_nil head.text).trans (List.cons.inj whole).2).trans
        (List.append_nil head'.text).symm
      obtain ⟨rfl, _⟩ := Head.eq_of_text_append whole digits head.stopsBefore_nil digits'
        head'.stopsBefore_nil
      rfl

/-- Every template can be split. -/
theorem exists_splits (template : List Char) : ∃ parts, Splits parts template := by
  -- what follows a directive is shorter than the template
  induction length : template.length using Nat.strong_induction_on generalizing template with
  | _ n ih =>
    cases template with
    | nil => exact ⟨[], .nil⟩
    | cons c text =>
      by_cases percent : c = '%'
      · obtain ⟨rest, eq, stops⟩ := Head.exists_rest text
        have digits := Head.hasDigits_read text
        generalize Head.read text = head at eq stops digits
        subst percent eq
        cases rest with
        | nil =>
          rw [List.append_nil]
          exact ⟨_, .truncated digits⟩
        | cons letter rest =>
          obtain ⟨parts, others⟩ := ih rest.length (by simp at length; omega) rest rfl
          exact ⟨_, .directive digits (stops letter rfl) others⟩
      · obtain ⟨parts, others⟩ := ih text.length (by simp at length; omega) text rfl
        exact ⟨_, .plain percent others⟩

/-! ## Segments -/

/-- What a part is read as. -/
def Part.segment : Part → Segment
  | .plain c => .literal [c]
  | .truncated head => .literal ('%' :: head.text)
  | .directive head letter =>
    if letter = '%' then .literal ['%']
    else match Conversion.ofLetter? letter with
      | none => .literal ('%' :: (head.text ++ [letter]))
      | some conversion => .directive ⟨head.leftAligned, readCount head.width,
          head.precision.map readCount, conversion, '%' :: (head.text ++ [letter])⟩

theorem point_readPrecision (text : List Char) :
    (if text.head? = some '.' then '.' ::
      (if text.head? = some '.' then (text.drop 1).takeWhile Char.isDigit else []) else []) =
      Head.point (Head.readPrecision text) := by
  unfold Head.readPrecision
  split <;> rfl

theorem map_readPrecision (text : List Char) :
    (if text.head? = some '.' then some (readCount
      (if text.head? = some '.' then (text.drop 1).takeWhile Char.isDigit else [])) else none) =
      (Head.readPrecision text).map readCount := by
  unfold Head.readPrecision
  split <;> rfl

/-- What follows a percent sign is a beginning and a letter, unless the template ends before it. -/
theorem readDirective_eq (text : List Char) :
    readDirective text = match text.drop (Head.read text).text.length with
      | [] => (.literal ('%' :: text), [])
      | letter :: rest => ((Part.directive (Head.read text) letter).segment, rest) := by
  generalize flagged : decide (text.head? = some '-') = leftAligned
  generalize first : text.drop (Head.flag leftAligned).length = text₁
  generalize counted : text₁.takeWhile Char.isDigit = width
  generalize second : text₁.drop width.length = text₂
  have reads : Head.read text = ⟨leftAligned, width, Head.readPrecision text₂⟩ := by
    rw [Head.read, flagged, first, counted, second]
  have after : text.drop (Head.read text).text.length =
      text₂.drop (Head.point (Head.readPrecision text₂)).length := by
    rw [reads, Head.text, List.length_append, List.length_append, ← List.drop_drop, ← List.drop_drop,
      first, second]
  have flagText : (if text.head? = some '-' then ['-'] else []) = Head.flag leftAligned := by
    rw [← flagged, Head.flag]
    simp only [decide_eq_true_eq]
  rw [after, reads, readDirective]
  simp only [flagged, flagText, first, counted, second, point_readPrecision, map_readPrecision]
  cases text₂.drop (Head.point (Head.readPrecision text₂)).length with
  | nil => rfl
  | cons letter rest =>
    have written :
        '%' :: Head.flag leftAligned ++ width ++ Head.point (Head.readPrecision text₂) ++ [letter] =
          '%' :: ((Head.mk leftAligned width (Head.readPrecision text₂)).text ++ [letter]) := by
      simp [Head.text]
    simp only [written, Part.segment]
    split
    · rfl
    · cases Conversion.ofLetter? letter <;> rfl

theorem readDirective_text {head : Head} {rest : List Char} (digits : head.HasDigits)
    (stops : head.StopsBefore rest) :
    readDirective (head.text ++ rest) = match rest with
      | [] => ((Part.truncated head).segment, [])
      | letter :: rest => ((Part.directive head letter).segment, rest) := by
  rw [readDirective_eq, Head.read_text digits stops, List.drop_left]
  cases rest with
  | nil => rw [List.append_nil]; rfl
  | cons letter rest => rfl

/-- The segments of a template are those of its parts. -/
theorem segmentsWithin_eq {parts : List Part} {template : List Char}
    (splits : Splits parts template) {fuel : Nat} (enough : template.length ≤ fuel) :
    segmentsWithin fuel template = parts.map Part.segment := by
  induction splits generalizing fuel with
  | nil => cases fuel <;> rfl
  | @plain c parts text notPercent _ ih =>
    obtain _ | fuel := fuel
    · simp at enough
    · rw [segmentsWithin, if_neg notPercent, ih (by simpa using enough)]
      rfl
  | @directive head letter parts text digits stops _ ih =>
    obtain _ | fuel := fuel
    · simp at enough
    · have shorter : text.length ≤ fuel := by simp at enough; omega
      rw [segmentsWithin, if_pos rfl, readDirective_text digits (stops.before text)]
      dsimp only
      rw [ih shorter, List.map_cons]
  | @truncated head digits =>
    obtain _ | fuel := fuel
    · simp at enough
    · have read := readDirective_text digits head.stopsBefore_nil
      rw [List.append_nil] at read
      rw [segmentsWithin, if_pos rfl, read]
      cases fuel <;> rfl

theorem segments_eq {parts : List Part} {template : List Char} (splits : Splits parts template) :
    segments template = parts.map Part.segment := segmentsWithin_eq splits le_rfl

end ValueMachine.Printing
