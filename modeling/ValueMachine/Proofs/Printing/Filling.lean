import ValueMachine.Proofs.Printing.Parts

/-!
# Filled templates

What a template is filled with: its parts stand for themselves, for a percent sign or for the next
argument, and arguments are used up from left to right. Widths and precisions that are not too large
leave every text possible.

Results:
* `fill?_segment_cons`: what one part does;
* `fill?_map_segment`: what a template does;
* `format_by_parts`: templates are filled by their grammar.
-/

namespace ValueMachine

namespace Printing

/-! ## Letters of conversions -/

/-- The letters of the conversions that take an argument. -/
def argumentLetters : List Char := ['d', 'i', 'f', 'g', 's', 'b', 'v']

theorem ofLetter?_eq_none_iff {letter : Char} :
    Conversion.ofLetter? letter = none ↔ letter ∉ argumentLetters := by
  unfold Conversion.ofLetter?
  split <;> simp_all [argumentLetters]

/-! ## Filled up texts -/

/-- A text with blanks at its end if it is left-aligned, and before it otherwise. -/
def padded (leftAligned : Bool) (width : Nat) (body : List Char) : List Char :=
  let blanks := List.replicate (max width body.length - body.length) ' '
  if leftAligned then body ++ blanks else blanks ++ body

theorem length_padded (leftAligned : Bool) (width : Nat) (body : List Char) :
    (padded leftAligned width body).length = max width body.length := by
  have fits : body.length ≤ max width body.length := Nat.le_max_right ..
  cases leftAligned with
  | false =>
    rw [padded, if_neg Bool.false_ne_true, List.length_append, List.length_replicate]
    exact Nat.sub_add_cancel fits
  | true =>
    rw [padded, if_pos rfl, List.length_append, List.length_replicate]
    exact Nat.add_sub_of_le fits

/-- Counts up to this one are always small enough. -/
def countLimit : Nat := 9999

theorem pad?_eq {d : Directive} (small : d.width ≤ countLimit) (body : List Char) :
    d.pad? body = some (padded d.leftAligned d.width body) := by
  have missing : max d.width body.length - body.length = d.width - body.length := by omega
  have few : d.width - body.length < fillLimit :=
    Nat.lt_of_le_of_lt ((Nat.sub_le _ _).trans small) (by decide)
  rw [Directive.pad?, if_pos few, padded, missing]

theorem readCount_eq {digits : List Char} (small : Number.plainValue digits ≤ countLimit) :
    readCount digits = Number.plainValue digits := by
  rw [readCount, Number.digitsValue_eq]
  exact Nat.mod_eq_of_lt (Nat.lt_of_le_of_lt small (by decide))

end Printing

namespace Number

theorem cut?_eq (x : Float) {places : Nat} (small : places ≤ Printing.countLimit) :
    cut? x places = some (cut x places) := by
  have whole : (places + guardPlaces) % twoPow 64 = places + guardPlaces :=
    Nat.mod_eq_of_lt (Nat.lt_of_le_of_lt (Nat.add_le_add_right small _) (by decide))
  have few : ¬ maxPlaces < places + guardPlaces :=
    Nat.not_lt.mpr ((Nat.add_le_add_right small _).trans (by decide))
  rw [cut?, whole, if_neg few, if_pos (Nat.lt_add_of_pos_right (by decide))]

/-- The exponents that are not written are at least `-4`. -/
theorem generalPlaces_le (mantissa : Nat) (exponent : Int) (precision : Nat) :
    generalPlaces mantissa exponent precision ≤ precision + 3 := by
  unfold generalPlaces
  dsimp only
  generalize (significant _ _ _).exponent = X
  split <;> omega

theorem general?_eq (x : Float) {precision : Nat} (small : precision ≤ Printing.countLimit) :
    general? x precision = some (general x precision) := by
  have few (mantissa : Nat) (exponent : Int) :
      ¬ maxPlaces < generalPlaces mantissa exponent (max precision 1) := by
    have least : max precision 1 + 3 ≤ maxPlaces :=
      (Nat.add_le_add_right (max_le small (by decide)) 3).trans (by decide)
    exact Nat.not_lt.mpr ((generalPlaces_le ..).trans least)
  unfold general?
  split
  · exact if_neg fun large => few _ _ large.2
  · rfl

end Number

namespace Heap

open Printing

/-- The text of an argument for the letter of a conversion. -/
def argumentText (h : Heap) (maxDepth : Nat) (precision : Option Nat) (v : Value) :
    Char → List Char
  | 'd' | 'i' => integerText (Number.toInt64 (h.toNumber v))
  | 'f' => Number.cut (h.toNumber v) (precision.getD defaultPrecision)
  | 'g' => Number.general (h.toNumber v) (precision.getD defaultPrecision)
  | 'b' => (if h.isTruthy v then "true" else "false").toList
  | 'v' => h.render maxDepth false v
  | _ => precision.elim (h.display v).toList (h.display v).toList.take

theorem convert?_eq {h : Heap} {maxDepth : Nat} {d : Directive} {letter : Char}
    (conversion : Conversion.ofLetter? letter = some d.conversion)
    (small : ∀ places ∈ d.precision, places ≤ countLimit) (v : Value) :
    h.convert? maxDepth d v = some (h.argumentText maxDepth d.precision v letter) := by
  have few : d.precision.getD defaultPrecision ≤ countLimit := by
    cases given : d.precision with
    | none => exact (by decide : defaultPrecision ≤ countLimit)
    | some places => exact small places given
  obtain ⟨_, _, _, c, _⟩ := d
  unfold Conversion.ofLetter? at conversion
  split at conversion <;> cases conversion
  case h_3 => exact Number.cut?_eq _ few
  case h_4 => exact Number.general?_eq _ few
  all_goals rfl

end Heap

/-! ## Filled parts -/

namespace Printing

namespace Part

/-- The parts that arguments are for. -/
def takesArgument : Part → Bool
  | .directive _ letter => letter ∈ argumentLetters
  | _ => false

/-- The parts that stand for a percent sign. -/
def IsPercent (part : Part) : Prop := ∃ head, part = .directive head '%'

/-- Width and precision are not too large. -/
def IsModest : Part → Prop
  | .directive head _ => Number.plainValue head.width ≤ countLimit ∧
    ∀ digits ∈ head.precision, Number.plainValue digits ≤ countLimit
  | _ => True

/-- What is written for a part, given the next argument. -/
def output (h : Heap) (maxDepth : Nat) (next : Option Value) (part : Part) : List Char :=
  match part with
  | .directive head letter =>
    if letter = '%' then ['%']
    else if letter ∈ argumentLetters then
      next.elim part.text fun v => padded head.leftAligned (Number.plainValue head.width)
        (h.argumentText maxDepth (head.precision.map Number.plainValue) v letter)
    else part.text
  | _ => part.text

/-- The directive that a part is read as. -/
theorem segment_directive {head : Head} {letter : Char} {conversion : Conversion}
    (known : Conversion.ofLetter? letter = some conversion) :
    (Part.directive head letter).segment = .directive ⟨head.leftAligned, readCount head.width,
      head.precision.map readCount, conversion, (Part.directive head letter).text⟩ := by
  have other : letter ≠ '%' := by
    rintro rfl
    cases known
  rw [Part.segment, if_neg other, known]
  rfl

theorem takesArgument_iff {head : Head} {letter : Char} :
    (Part.directive head letter).takesArgument = true ↔ letter ∈ argumentLetters :=
  decide_eq_true_iff

theorem output_of_takesArgument {head : Head} {letter : Char}
    (takes : (Part.directive head letter).takesArgument = true) (h : Heap) (maxDepth : Nat)
    (next : Option Value) :
    (Part.directive head letter).output h maxDepth next =
      next.elim (Part.directive head letter).text fun v =>
        padded head.leftAligned (Number.plainValue head.width)
          (h.argumentText maxDepth (head.precision.map Number.plainValue) v letter) := by
  have known : letter ∈ argumentLetters := takesArgument_iff.mp takes
  have other : letter ≠ '%' := by
    rintro rfl
    exact absurd known (by decide)
  rw [output, if_neg other, if_pos known]

/-- A part that takes no argument stands for the same text whatever arguments there are. -/
theorem segment_of_not_takesArgument {part : Part} (takes : part.takesArgument = false)
    (h : Heap) (maxDepth : Nat) (next : Option Value) :
    part.segment = .literal (part.output h maxDepth next) := by
  cases part with
  | plain c => rfl
  | truncated head => rfl
  | directive head letter =>
    have unknown : letter ∉ argumentLetters := of_decide_eq_false takes
    rw [Part.segment, output]
    by_cases percent : letter = '%'
    · rw [if_pos percent, if_pos percent]
    · rw [if_neg percent, if_neg percent, if_neg unknown, ofLetter?_eq_none_iff.mpr unknown]
      rfl

end Part

end Printing

namespace Heap

open Printing

variable (h : Heap) (maxDepth : Nat)

variable {h maxDepth} in
theorem fill?_directive_cons {d : Directive} {v : Value} {body text : List Char}
    {segments : List Segment} {vs : List Value} (converted : h.convert? maxDepth d v = some body)
    (filledUp : d.pad? body = some text) :
    h.fill? maxDepth (.directive d :: segments) (v :: vs) =
      (h.fill? maxDepth segments vs).map (text :: ·) := by
  rw [fill?, converted, Option.bind_eq_bind, Option.bind_some, filledUp, Option.bind_eq_bind,
    Option.bind_some, Option.map_eq_bind]
  rfl

/-- What one part does: it writes its output and takes an argument or leaves them all. -/
theorem fill?_segment_cons {part : Part} (segments : List Segment) {vs : List Value}
    (modest : vs ≠ [] → part.IsModest) :
    h.fill? maxDepth (part.segment :: segments) vs =
      (h.fill? maxDepth segments (if part.takesArgument then vs.tail else vs)).map
        (part.output h maxDepth vs.head? :: ·) := by
  cases takes : part.takesArgument with
  | false =>
    rw [part.segment_of_not_takesArgument takes h maxDepth vs.head?, fill?, bind_pure_comp]
    rfl
  | true =>
    cases part with
    | plain c => cases takes
    | truncated head => cases takes
    | directive head letter =>
      obtain ⟨conversion, known⟩ : ∃ conversion, Conversion.ofLetter? letter = some conversion :=
        Option.ne_none_iff_exists'.mp fun unknown =>
          ofLetter?_eq_none_iff.mp unknown (Part.takesArgument_iff.mp takes)
      rw [Part.segment_directive known]
      cases vs with
      | nil =>
        rw [Part.output_of_takesArgument takes, fill?, bind_pure_comp]
        rfl
      | cons v vs =>
        obtain ⟨narrow, few⟩ := modest (List.cons_ne_nil v vs)
        have precision : head.precision.map readCount = head.precision.map Number.plainValue :=
          Option.map_congr fun digits mem => readCount_eq (few digits mem)
        have small : ∀ places ∈ head.precision.map Number.plainValue, places ≤ countLimit := by
          simpa using few
        rw [readCount_eq narrow, precision, Part.output_of_takesArgument takes,
          fill?_directive_cons (convert?_eq known small v) (pad?_eq narrow _)]
        rfl

/-- The text that a template is filled with: the `k`-th part that takes an argument has the `k`-th
one. -/
def filled (parts : List Part) (vs : List Value) : List Char :=
  (parts.mapIdx fun i part =>
    part.output h maxDepth vs[(parts.take i).countP Part.takesArgument]?).flatten

/-- The arguments that a part leaves are those behind the one that it takes. -/
theorem getElem?_left (takes : Bool) (vs : List Value) (k : Nat) :
    (if takes then vs.tail else vs)[k]? = vs[k + if takes then 1 else 0]? := by
  cases takes with
  | false => rfl
  | true => exact List.getElem?_tail

/-- What a template does: every part takes an argument or leaves them all. -/
theorem fill?_map_segment {parts : List Part} {vs : List Value}
    (modest : vs ≠ [] → ∀ part ∈ parts, part.IsModest) :
    h.fill? maxDepth (parts.map Part.segment) vs = some (parts.mapIdx fun i part =>
      part.output h maxDepth vs[(parts.take i).countP Part.takesArgument]?) := by
  induction parts generalizing vs with
  | nil => cases vs <;> rfl
  | cons part parts ih =>
    have left : (if part.takesArgument then vs.tail else vs) ≠ [] → vs ≠ [] := by
      rintro left rfl
      simp at left
    have first : vs ≠ [] → part.IsModest := fun some => modest some part List.mem_cons_self
    have others := ih fun some other mem => modest (left some) other (List.mem_cons_of_mem _ mem)
    rw [List.map_cons, h.fill?_segment_cons maxDepth _ first, others, List.mapIdx_cons,
      Option.map_some, List.head?_eq_getElem?]
    refine congrArg (fun others => some (part.output h maxDepth vs[0]? :: others)) ?_
    congr 1
    funext i other
    rw [List.take_succ_cons, List.countP_cons, getElem?_left]

/-- A template with modest parts is filled. -/
theorem format?_eq_filled {parts : List Part} {template : List Char} {vs : List Value}
    (splits : Splits parts template) (modest : vs ≠ [] → ∀ part ∈ parts, part.IsModest) :
    h.format? maxDepth template vs = some (h.filled maxDepth parts vs) := by
  rw [format?, segments_eq splits, h.fill?_map_segment maxDepth modest]
  rfl

/-! ### Parts that write the same for all arguments -/

variable {h maxDepth} in
theorem filled_eq_flatMap {parts : List Part} {vs : List Value} {text : Part → List Char}
    (same : ∀ part ∈ parts, ∀ k : Nat, part.output h maxDepth vs[k]? = text part) :
    h.filled maxDepth parts vs = parts.flatMap text := by
  have outputs : (parts.mapIdx fun i part => part.output h maxDepth
      vs[(parts.take i).countP Part.takesArgument]?) = parts.map text := by
    refine List.ext_getElem (by simp) fun i inside _ => ?_
    rw [List.getElem_mapIdx, List.getElem_map]
    exact same _ (List.getElem_mem _) _
  rw [filled, outputs, List.flatMap_def]

/-- Without arguments, a part stands for itself if not for a percent sign. -/
theorem output_none {part : Part} (noPercent : ¬ part.IsPercent) :
    part.output h maxDepth none = part.text := by
  cases part with
  | plain c => rfl
  | truncated head => rfl
  | directive head letter =>
    have other : letter ≠ '%' := fun percent => noPercent ⟨head, percent ▸ rfl⟩
    rw [Part.output, if_neg other]
    split <;> rfl

theorem format?_nil {parts : List Part} {template : List Char} (splits : Splits parts template)
    (noPercent : ∀ part ∈ parts, ¬ part.IsPercent) :
    h.format? maxDepth template [] = some template := by
  rw [h.format?_eq_filled maxDepth splits fun some => absurd rfl some,
    filled_eq_flatMap fun part mem k => h.output_none maxDepth (noPercent part mem),
    splits.flatMap_text]

end Heap

namespace Printing

/-- A character of a text that is to be printed as it is. -/
def doubled (c : Char) : List Char := if c = '%' then ['%', '%'] else [c]

def doubledPart (c : Char) : Part := if c = '%' then .directive ⟨false, [], none⟩ '%' else .plain c

theorem splits_doubled (text : List Char) :
    Splits (text.map doubledPart) (text.flatMap doubled) := by
  induction text with
  | nil => exact .nil
  | cons c text ih =>
    rw [List.map_cons, List.flatMap_cons, doubledPart, doubled]
    by_cases percent : c = '%'
    · rw [if_pos percent, if_pos percent]
      exact @Splits.directive ⟨false, [], none⟩ '%' _ _ ⟨nofun, nofun⟩ (by simp [Head.Stops]) ih
    · rw [if_neg percent, if_neg percent]
      exact .plain percent ih

theorem isModest_doubledPart (c : Char) : (doubledPart c).IsModest := by
  unfold doubledPart
  split
  · exact ⟨by decide, nofun⟩
  · trivial

theorem output_doubledPart (h : Heap) (maxDepth : Nat) (next : Option Value) (c : Char) :
    (doubledPart c).output h maxDepth next = [c] := by
  unfold doubledPart
  split
  · next percent => rw [percent]; rfl
  · rfl

end Printing

namespace Heap

open Printing

variable (h : Heap) (maxDepth : Nat)

/-- A text with its percent signs doubled is printed as the text. -/
theorem format?_doubled (text : List Char) (vs : List Value) :
    h.format? maxDepth (text.flatMap doubled) vs = some text := by
  have modest : ∀ part ∈ text.map doubledPart, part.IsModest := by
    simp [isModest_doubledPart]
  have same : ∀ part ∈ text.map doubledPart, ∀ k : Nat,
      part.output h maxDepth vs[k]? = part.output h maxDepth none := by
    simp [output_doubledPart]
  rw [h.format?_eq_filled maxDepth (splits_doubled text) fun _ => modest, filled_eq_flatMap same,
    List.flatMap_map]
  simp [output_doubledPart]

/-- Templates are filled by their grammar: a template has one split, its parts are filled with the
arguments from left to right, without arguments it stands for itself if nothing in it stands for a
percent sign, and a text with its percent signs doubled is printed as it is. -/
theorem format_by_parts (template : List Char) (vs : List Value) :
    (∃ parts, (∀ parts', Splits parts' template ↔ parts' = parts) ∧
      ((∀ part ∈ parts, part.IsModest) →
        h.format? maxDepth template vs = some (h.filled maxDepth parts vs)) ∧
      ((∀ part ∈ parts, ¬ part.IsPercent) → h.format? maxDepth template [] = some template)) ∧
    (∀ text, h.format? maxDepth (text.flatMap doubled) vs = some text) ∧
    ∀ leftAligned width body, (padded leftAligned width body).length = max width body.length := by
  obtain ⟨parts, splits⟩ := exists_splits template
  refine ⟨⟨parts, fun parts' => ⟨fun splits' => splits'.unique splits, ?_⟩,
    fun modest => h.format?_eq_filled maxDepth splits fun _ => modest,
    h.format?_nil maxDepth splits⟩, fun text => h.format?_doubled maxDepth text vs, length_padded⟩
  rintro rfl
  exact splits

/-- An unknown letter, a percent sign, a directive without an argument and one without a letter stand
among those that take an argument. -/
theorem format_by_parts_mixed :
    let h : Heap := .ofCells #[.ofPayload (.text false "añb"), .ofPayload (.text false "wörter"),
      .ofPayload (.bool true), .ofPayload (.number (-7.5)), .ofPayload (.number 2.345),
      .ofPayload (.number 0.1), .ofPayload (.array #[.small 1, .cell 0])]
    let vs : List Value :=
      [.cell 0, .cell 1, .cell 2, .small 42, .cell 3, .cell 4, .cell 5, .cell 6]
    let template := "é%-5s|%7.2s%ö%%%b%5d%-4i|%.2f%6g%v%.3f%-4".toList
    let parts : List Part := [.plain 'é', .directive ⟨true, ['5'], none⟩ 's', .plain '|',
      .directive ⟨false, ['7'], some ['2']⟩ 's', .directive ⟨false, [], none⟩ 'ö',
      .directive ⟨false, [], none⟩ '%', .directive ⟨false, [], none⟩ 'b',
      .directive ⟨false, ['5'], none⟩ 'd', .directive ⟨true, ['4'], none⟩ 'i', .plain '|',
      .directive ⟨false, [], some ['2']⟩ 'f', .directive ⟨false, ['6'], none⟩ 'g',
      .directive ⟨false, [], none⟩ 'v', .directive ⟨false, [], some ['3']⟩ 'f',
      .truncated ⟨true, ['4'], none⟩]
    Splits parts template ∧ (∀ part ∈ parts, part.IsModest) ∧
      h.format? 16 template vs =
        some "éañb  |     wö%ö%true   42-7  |2.34   0.1[1, \"añb\"]%.3f%-4".toList := by
  intro h vs template parts
  have splits : Splits parts template := by
    refine .plain (by decide) (.directive ?_ ?_ (.plain (by decide) (.directive ?_ ?_
      (.directive ?_ ?_ (.directive ?_ ?_ (.directive ?_ ?_ (.directive ?_ ?_ (.directive ?_ ?_
      (.plain (by decide) (.directive ?_ ?_ (.directive ?_ ?_ (.directive ?_ ?_ (.directive ?_ ?_
      (.truncated ?_))))))))))))))
    all_goals simp [Head.HasDigits, Head.Stops, Head.text, Head.flag]
  have modest : ∀ part ∈ parts, part.IsModest := by
    simp [parts, Part.IsModest]
    decide
  obtain ⟨⟨parts', unique, filled, -⟩, -⟩ := h.format_by_parts 16 template vs
  obtain rfl := (unique parts).mp splits
  refine ⟨splits, modest, (filled modest).trans ?_⟩
  decide +kernel

end Heap

end ValueMachine
