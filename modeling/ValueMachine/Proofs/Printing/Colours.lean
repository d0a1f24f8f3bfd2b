import ValueMachine.Proofs.Heap.Graph
import ValueMachine.Proofs.Printing.TidyTexts
import ValueMachine.Proofs.Value.Outlines

/-!
# Colours

A terminal takes escape sequences off a text and changes colours by their codes. What is printed in
colour leaves what is printed without colours, as long as no text of the program begins a sequence
of its own, and after every colour the next sequence is a reset.

Results:
* `tokens_write`: a terminal reads a row of pieces piece by piece;
* `isClean_layout`: the pieces that values are laid out in;
* `colours_wrap_tokens`: both printed forms of a value.
-/

namespace ValueMachine

namespace Printing

/-! ## Escape sequences -/

/-- What a terminal takes off a text: a character, or an escape sequence with its code. -/
inductive Token where
  | char (c : Char)
  | escape (code : List Char)

def Token.char? : Token → Option Char
  | char c => some c
  | escape _ => none

def Token.code? : Token → Option (List Char)
  | char _ => none
  | escape code => some code

/-- The tokens of a text. An escape sequence ends with the first `m`; inside one the code is given
as far as it has been read. A sequence that does not end is none. -/
def tokensFrom : Option (List Char) → List Char → List Token
  | none, '\x1b' :: '[' :: rest => tokensFrom (some []) rest
  | none, c :: rest => .char c :: tokensFrom none rest
  | none, [] => []
  | some code, 'm' :: rest => .escape code :: tokensFrom none rest
  | some code, c :: rest => tokensFrom (some (code ++ [c])) rest
  | some code, [] => (escapeStart ++ code).map .char

def tokens (text : List Char) : List Token := tokensFrom none text

/-- The text without its escape sequences. -/
def bare (text : List Char) : List Char := (tokens text).filterMap Token.char?

/-- The codes of the escape sequences of a text. -/
def codes (text : List Char) : List (List Char) := (tokens text).filterMap Token.code?

def resetCode : List Char := "0".toList

/-- Colours and resets in turn: after every colour a reset. -/
inductive Alternates : List (List Char) → Prop
  | nil : Alternates []
  | cons (paint : Paint) (other : paint.code.toList ≠ resetCode) {codes : List (List Char)}
    (rest : Alternates codes) : Alternates (paint.code.toList :: resetCode :: codes)

/-- No escape sequence begins in the text. -/
def IsClean (text : List Char) : Prop := '\x1b' ∉ text

instance (text : List Char) : Decidable (IsClean text) :=
  inferInstanceAs (Decidable ('\x1b' ∉ text))

theorem tokens_cons {c : Char} (other : c ≠ '\x1b') (rest : List Char) :
    tokens (c :: rest) = .char c :: tokens rest := by
  rw [tokens, tokensFrom]
  · rfl
  · rintro rest rfl
    exact absurd rfl other

theorem tokens_append {text : List Char} (clean : IsClean text) (rest : List Char) :
    tokens (text ++ rest) = text.map .char ++ tokens rest := by
  induction text with
  | nil => rfl
  | cons c text ih =>
    have other := (List.ne_of_not_mem_cons clean).symm
    rw [List.cons_append, tokens_cons other, ih (List.not_mem_of_not_mem_cons clean)]
    rfl

theorem tokensFrom_append {text : List Char} (inside : 'm' ∉ text) (code rest : List Char) :
    tokensFrom (some code) (text ++ 'm' :: rest) = .escape (code ++ text) :: tokens rest := by
  induction text generalizing code with
  | nil =>
    rw [List.append_nil]
    rfl
  | cons c text ih =>
    have inside' := List.not_mem_of_not_mem_cons inside
    rw [List.cons_append, tokensFrom, ih inside', List.append_assoc]
    · rfl
    · exact (List.ne_of_not_mem_cons inside).symm

theorem tokens_sequence {code : String} (inside : 'm' ∉ code.toList) (rest : List Char) :
    tokens (sequence code ++ rest) = .escape code.toList :: tokens rest := by
  rw [sequence, List.append_assoc, List.append_assoc]
  exact tokensFrom_append inside [] rest

/-! ## Pieces -/

/-- The code of a colour does not end its sequence, and is not that of a reset. -/
theorem Paint.isColour (paint : Paint) :
    'm' ∉ paint.code.toList ∧ paint.code.toList ≠ resetCode := by
  cases paint with
  | bracket depth =>
    rw [code]
    split <;> decide
  | _ => decide

/-- The mark of a function has brackets in colour only, so it is not clean. -/
def Piece.IsClean : Piece → Prop
  | plain content => Printing.IsClean content
  | painted _ content => Printing.IsClean content
  | functionMark => False

def Piece.tokens : Piece → List Token
  | plain content => content.map .char
  | painted paint content =>
    .escape paint.code.toList :: (content.map .char ++ [.escape resetCode])
  | functionMark => []

theorem Piece.tokens_write {piece : Piece} (clean : piece.IsClean) (rest : List Char) :
    Printing.tokens (piece.write true ++ rest) = piece.tokens ++ Printing.tokens rest := by
  cases piece with
  | plain content => exact tokens_append clean rest
  | painted paint content =>
    rw [write, if_pos rfl, coloured, List.append_assoc, List.append_assoc,
      tokens_sequence paint.isColour.1, tokens_append clean, reset,
      tokens_sequence (by decide)]
    simp [Piece.tokens, resetCode]
  | functionMark => exact clean.elim

/-- A terminal reads a row of pieces piece by piece. -/
theorem tokens_write {pieces : List Piece} (clean : ∀ piece ∈ pieces, piece.IsClean) :
    tokens (write true pieces) = pieces.flatMap Piece.tokens := by
  induction pieces with
  | nil => rfl
  | cons piece pieces ih =>
    obtain ⟨first, others⟩ := List.forall_mem_cons.mp clean
    rw [write_cons, Piece.tokens_write first, ih others, List.flatMap_cons]

theorem filterMap_char? (content : List Char) :
    (content.map Token.char).filterMap Token.char? = content :=
  (List.filterMap_map ..).trans List.filterMap_some

theorem filterMap_code? (content : List Char) :
    (content.map Token.char).filterMap Token.code? = [] :=
  (List.filterMap_map ..).trans (List.filterMap_eq_nil_iff.mpr fun _ _ => rfl)

/-- A text without escape sequences is left as it is. -/
theorem bare_of_isClean {text : List Char} (clean : IsClean text) :
    bare text = text ∧ codes text = [] := by
  have own : tokens text = text.map .char := by
    have rest := tokens_append clean []
    rwa [List.append_nil, show tokens [] = [] from rfl, List.append_nil] at rest
  rw [bare, codes, own]
  exact ⟨filterMap_char? text, filterMap_code? text⟩

/-- Without its escape sequences a row of pieces is what is written without colours. -/
theorem bare_write {pieces : List Piece} (clean : ∀ piece ∈ pieces, piece.IsClean) :
    bare (write true pieces) = write false pieces := by
  rw [bare, tokens_write clean, write, List.filterMap_flatMap]
  refine List.flatMap_congr fun piece mem => ?_
  have isClean := clean piece mem
  cases piece with
  | plain content => exact filterMap_char? content
  | painted paint content =>
    rw [Piece.tokens, List.filterMap_cons_none rfl, List.filterMap_append, filterMap_char?]
    exact List.append_nil content
  | functionMark => exact isClean.elim

/-- After every colour a row of pieces has a reset. -/
theorem alternates_write {pieces : List Piece} (clean : ∀ piece ∈ pieces, piece.IsClean) :
    Alternates (codes (write true pieces)) := by
  rw [codes, tokens_write clean]
  -- from here on only the paints count, whatever the pieces hold
  clear clean
  induction pieces with
  | nil => exact .nil
  | cons piece pieces ih =>
    rw [List.flatMap_cons, List.filterMap_append]
    cases piece with
    | plain content => rwa [Piece.tokens, filterMap_code?]
    | painted paint content =>
      have first : Token.code? (.escape paint.code.toList) = some paint.code.toList := rfl
      rw [Piece.tokens, List.filterMap_cons_some first, List.filterMap_append, filterMap_code?]
      exact .cons paint paint.isColour.2 ih
    | functionMark => exact ih

/-! ## Texts -/

theorem IsClean.append {text text' : List Char} (clean : IsClean text) (clean' : IsClean text') :
    IsClean (text ++ text') :=
  fun mem => (List.mem_append.mp mem).elim clean clean'

theorem isClean_tidy (x : Float) : IsClean (Number.tidy x) := by
  by_cases finite : x.isFinite = true
  · obtain ⟨q, spells, -⟩ := Number.exists_spells_tidy finite
    intro mem
    cases spells.isNumeral _ mem
  · rw [Number.tidy]
    split
    · decide
    · next negative reads => cases negative <;> decide
    · next reads => exact absurd (Number.isFinite_iff.mpr ⟨_, _, _, reads⟩) finite

theorem isClean_digits (n : Nat) : IsClean (Number.digits n) := by
  intro mem
  cases Number.isDigit_of_mem_digits mem

theorem isClean_integerText (n : Int) : IsClean (integerText n) := by
  refine IsClean.append ?_ (isClean_digits _)
  cases decide (n < 0) <;> decide

theorem isClean_quoted {content : String} (clean : IsClean content.toList) :
    IsClean (quoted content) := by
  have quote : IsClean ['"'] := by decide
  exact quote.append (clean.append quote)

theorem isClean_field {name : String} {content : List Char} (name_clean : IsClean name.toList)
    (clean : IsClean content) : IsClean (field name content) :=
  (name_clean.append (by decide)).append clean

theorem isClean_listed {rows : List (List Char)} (clean : ∀ row ∈ rows, IsClean row) :
    IsClean (listed rows) := by
  induction rows with
  | nil => decide
  | cons row rows ih =>
    obtain ⟨first, others⟩ := List.forall_mem_cons.mp clean
    cases rows with
    | nil => rwa [listed, List.intercalate_singleton]
    | cons next rows =>
      rw [listed, List.intercalate_cons_cons]
      exact (first.append (by decide)).append (ih others)

theorem isClean_braced {fields : List (List Char)} (clean : ∀ field ∈ fields, IsClean field) :
    IsClean (braced fields) :=
  (IsClean.append (by decide) (isClean_listed clean)).append (by decide)

theorem isClean_commas {rows : List (List Piece)}
    (clean : ∀ row ∈ rows, ∀ piece ∈ row, piece.IsClean) :
    ∀ piece ∈ commas rows, piece.IsClean := by
  fun_induction commas rows with
  | case1 => exact List.forall_mem_nil _
  | case2 row => exact clean row List.mem_cons_self
  | case3 row rows some ih =>
    obtain ⟨first, others⟩ := List.forall_mem_cons.mp clean
    have comma : IsClean [',', ' '] := by decide
    exact List.forall_mem_append.mpr ⟨first, List.forall_mem_cons.mpr ⟨comma, ih others⟩⟩

end Printing

open Printing

/-! ## Values -/

/-- The texts in an object with a payload of its own. -/
def Extension.texts : Extension → List String
  | .buffer _ => []
  | .fileHandle file => [file.path, file.mode]
  | .error e => [e.message, e.errorType]

/-- The texts that a payload itself has, the keys of an object among them. -/
def Payload.texts : Payload → List String
  | .text _ content => [content]
  | .object fields => fields.toList.map Prod.fst
  | .extension e => e.texts
  | _ => []

/-- A payload that is no function and has no escape sequence in its texts. -/
def Payload.IsClean (p : Payload) : Prop :=
  p.isFunction = false ∧ ∀ content ∈ p.texts, Printing.IsClean content.toList

theorem isClean_extensionFields {e : Extension}
    (clean : ∀ content ∈ e.texts, IsClean content.toList) :
    ∀ field ∈ extensionFields e, IsClean field := by
  cases e with
  | buffer bytes =>
    rw [extensionFields, List.forall_mem_cons, List.forall_mem_singleton]
    exact ⟨isClean_field (by decide) (isClean_digits _),
      isClean_field (by decide) (isClean_quoted (by decide))⟩
  | fileHandle file =>
    rw [Extension.texts, List.forall_mem_cons, List.forall_mem_singleton] at clean
    rw [extensionFields, List.forall_mem_cons, List.forall_mem_cons, List.forall_mem_cons,
      List.forall_mem_singleton]
    refine ⟨isClean_field (by decide) (isClean_quoted clean.1),
      isClean_field (by decide) (isClean_quoted clean.2),
      isClean_field (by decide) (isClean_digits _), isClean_field (by decide) ?_⟩
    cases file.isOpen <;> decide
  | error error =>
    rw [Extension.texts, List.forall_mem_cons, List.forall_mem_singleton] at clean
    rw [extensionFields, List.forall_mem_cons, List.forall_mem_cons, List.forall_mem_singleton]
    exact ⟨isClean_field (by decide) (isClean_quoted clean.1),
      isClean_field (by decide) (isClean_integerText _),
      isClean_field (by decide) (isClean_quoted clean.2)⟩

theorem isClean_extensionPieces {e : Extension}
    (clean : ∀ content ∈ e.texts, IsClean content.toList) :
    ∀ piece ∈ extensionPieces e, piece.IsClean := by
  have name : IsClean e.typeName.toList := by
    rw [Extension.typeName]
    cases e.subKind <;> decide
  have fields := isClean_braced (isClean_extensionFields clean)
  exact List.forall_mem_cons.mpr ⟨name, List.forall_mem_singleton.mpr fields⟩

namespace Heap

variable {h : Heap} {edges : Payload → List Value}

theorem Reaches.trans {u v w : Value} (reached : h.Reaches edges u v)
    (reached' : h.Reaches edges v w) : h.Reaches edges u w := by
  induction reached' with
  | root => exact reached
  | edge _ mem ih => exact .edge ih mem

/-- The content of boxes is reached from them. -/
theorem reaches_follow (fuel : Nat) :
    ∀ v : Value, h.Reaches Payload.parts v (h.follow fuel v) := by
  induction fuel with
  | zero => exact fun v => .root
  | succ fuel ih =>
    intro v
    rw [follow]
    split
    · next content box =>
      exact .of_edge (by rw [box]; exact List.mem_singleton_self content) (ih content)
    · exact .root

/-- All that is reached from a value is no function and has no escape sequence in its texts. -/
def IsCleanFrom (h : Heap) (v : Value) : Prop :=
  ∀ u, h.Reaches Payload.parts v u → (h.payload u).IsClean

theorem IsCleanFrom.of_reaches {v w : Value} (clean : h.IsCleanFrom v)
    (reached : h.Reaches Payload.parts v w) : h.IsCleanFrom w :=
  fun u reached' => clean u (reached.trans reached')

/-- A clean value is laid out in clean pieces. -/
theorem isClean_layout (room : Nat) : ∀ (depth : Nat) (ancestors : List Value) (v : Value),
    h.IsCleanFrom v → ∀ piece ∈ h.layout room depth ancestors v, piece.IsClean := by
  have single {paint : Paint} {content : List Char} (clean : Printing.IsClean content) :
      ∀ piece ∈ [Piece.painted paint content], piece.IsClean :=
    List.forall_mem_singleton.mpr clean
  have enclosed {paint : Paint} {opening : List Char} {pieces closing : List Piece}
      (clean : Printing.IsClean opening) (inside : ∀ piece ∈ pieces, piece.IsClean)
      (clean' : ∀ piece ∈ closing, piece.IsClean) :
      ∀ piece ∈ .painted paint opening :: pieces ++ closing, piece.IsClean :=
    List.forall_mem_append.mpr ⟨List.forall_mem_cons.mpr ⟨clean, inside⟩, clean'⟩
  have blank : Printing.IsClean [' '] := by decide
  induction room with
  | zero => exact fun depth ancestors v _ => single (by decide)
  | succ room ih =>
    intro depth ancestors v clean
    -- boxes are followed before anything is laid out
    have clean := clean.of_reaches (reaches_follow (h.size + 1) v)
    rw [layout, content]
    generalize h.follow (h.size + 1) v = v at clean
    have inside (item : Value) (mem : item ∈ (h.payload v).parts) :
        ∀ piece ∈ h.layout room (depth + 1) (v :: ancestors) item, piece.IsClean :=
      ih _ _ item (clean.of_reaches (.edge .root mem))
    obtain ⟨notFunction, texts⟩ := clean v .root
    dsimp only
    cases payload : h.payload v with
    | number x => exact single (isClean_tidy x)
    | bool b => exact single (by cases b <;> decide)
    | null => exact single (by decide)
    | undefined => exact single (by decide)
    | text isStatic content =>
      rw [payload] at texts
      exact single (isClean_quoted (texts content List.mem_cons_self))
    | function c =>
      rw [payload] at notFunction
      cases notFunction
    | extension e =>
      rw [payload] at texts
      exact isClean_extensionPieces texts
    | box content => exact List.forall_mem_nil _
    | array items =>
      rw [payload] at inside
      dsimp only
      split
      · exact single (by decide)
      split
      · exact single (by decide)
      · have rows := isClean_commas (List.forall_mem_map.mpr inside)
        exact enclosed (by decide) rows (single (by decide))
    | object fields =>
      rw [payload] at inside texts
      dsimp only
      split
      · exact single (by decide)
      split
      · exact single (by decide)
      · refine enclosed (by decide) (List.forall_mem_cons.mpr ⟨blank, isClean_commas ?_⟩)
          (List.forall_mem_cons.mpr ⟨blank, single (by decide)⟩)
        refine List.forall_mem_map.mpr fun field mem => ?_
        have key : Printing.IsClean field.1.toList := texts _ (List.mem_map_of_mem mem)
        have colon : Printing.IsClean [':', ' '] := by decide
        exact List.forall_mem_cons.mpr ⟨key, List.forall_mem_cons.mpr ⟨colon,
          inside field.2 (List.mem_map_of_mem mem)⟩⟩

end Heap

/-! ## Both printed forms -/

/-- The colour that a value begins with at a nesting depth. -/
def Payload.paint (depth : Nat) : Payload → Paint
  | .number _ => .number
  | .bool _ => .truth
  | .text _ _ => .text
  | .extension _ => .typeName
  | .array _ => .bracket depth
  | .object _ => .bracket depth
  | _ => .faint

/-- A value that has room and is not around itself is laid out with its colour first. -/
theorem Heap.exists_layout {h : Heap} {v : Value} (room depth : Nat)
    (notFunction : (h.contentPayload v).isFunction = false)
    (notBox : (h.contentPayload v).isBox = false) :
    ∃ content rest, h.layout (room + 1) depth [] v =
      .painted ((h.contentPayload v).paint depth) content :: rest := by
  rw [layout, ← contentPayload]
  cases payload : h.contentPayload v with
  | function c => rw [payload] at notFunction; cases notFunction
  | box content => rw [payload] at notBox; cases notBox
  | array items =>
    dsimp only
    split
    · exact ⟨_, _, rfl⟩
    · rw [if_neg List.not_mem_nil]
      exact ⟨_, _, rfl⟩
  | object fields =>
    dsimp only
    split
    · exact ⟨_, _, rfl⟩
    · rw [if_neg List.not_mem_nil]
      exact ⟨_, _, rfl⟩
  | _ => exact ⟨_, _, rfl⟩

/-- A value without functions, with no escape sequence in its texts, keys and fields, is printed in
colour as it is without colours, but for the escape sequences. These are colours and resets in
turn: the colour of each painted piece stands before its characters and a reset behind them, and the
value begins with its own colour. -/
theorem colours_wrap_tokens {h : Heap} {v : Value} (clean : h.IsCleanFrom v) (maxDepth : Nat) :
    bare (h.render maxDepth true v) = h.render maxDepth false v ∧
      bare (h.renderNested maxDepth true v) = h.renderNested maxDepth false v ∧
      Alternates (codes (h.render maxDepth true v)) ∧
      Alternates (codes (h.renderNested maxDepth true v)) ∧
      tokens (h.renderNested maxDepth true v) = (h.layout maxDepth 0 [] v).flatMap Piece.tokens ∧
      (0 < maxDepth → (h.contentPayload v).isBox = false →
        (codes (h.renderNested maxDepth true v)).head? =
          some ((h.contentPayload v).paint 0).code.toList) := by
  have pieces := Heap.isClean_layout maxDepth 0 [] v clean
  have same : bare (h.renderNested maxDepth true v) = h.renderNested maxDepth false v :=
    bare_write pieces
  have nested : Alternates (codes (h.renderNested maxDepth true v)) := alternates_write pieces
  have own : tokens (h.renderNested maxDepth true v) =
      (h.layout maxDepth 0 [] v).flatMap Piece.tokens := tokens_write pieces
  have begins (deep : 0 < maxDepth) (notBox : (h.contentPayload v).isBox = false) :
      (codes (h.renderNested maxDepth true v)).head? =
        some ((h.contentPayload v).paint 0).code.toList := by
    obtain ⟨room, rfl⟩ := Nat.exists_eq_succ_of_ne_zero deep.ne'
    have notFunction := (clean _ (h.reaches_follow (h.size + 1) v)).1
    obtain ⟨content, rest, laid⟩ := h.exists_layout room 0 notFunction notBox
    rw [codes, own, laid]
    rfl
  obtain ⟨notFunction, texts⟩ := clean v .root
  suffices bare (h.render maxDepth true v) = h.render maxDepth false v ∧
      Alternates (codes (h.render maxDepth true v)) from
    ⟨this.1, same, this.2, nested, own, begins⟩
  rw [Heap.render, Heap.render]
  cases payload : h.payload v with
  | text isStatic content =>
    rw [payload] at texts
    obtain ⟨same, none⟩ := bare_of_isClean (texts content List.mem_cons_self)
    exact ⟨same, none ▸ .nil⟩
  | function c =>
    rw [payload] at notFunction
    cases notFunction
  | _ => exact ⟨same, nested⟩

/-- An array of a number, an object with a payload of its own, an object, and itself. -/
def cabinet : Heap :=
  .ofCells #[.ofPayload (.array #[.cell 1, .cell 2, .cell 3, .cell 0]), .ofPayload (.number 1.5),
    .ofPayload (.extension (.error ⟨"gone", 3, "IoError"⟩)),
    .ofPayload (.object (.ofList 8 [("a", .cell 1)]))]

theorem colours_wrap_tokens_cabinet : cabinet.IsCleanFrom (.cell 0) ∧
    cabinet.render 2 false (.cell 0) = ("[1.5, Error \x7b message: \"gone\", code: 3, " ++
      "errorType: \"IoError\" \x7d, \x7b a: [...] \x7d, [Circular]]").toList ∧
    codes (cabinet.render 2 true (.cell 0)) = ["38;5;220", "0", "38;5;151", "0", "38;5;79", "0",
      "38;5;176", "0", "90", "0", "38;5;176", "0", "90", "0", "38;5;220", "0"].map String.toList ∧
    bare (cabinet.render 2 true (.cell 0)) = cabinet.render 2 false (.cell 0) ∧
    bare (cabinet.renderNested 2 true (.cell 0)) = cabinet.renderNested 2 false (.cell 0) ∧
    Alternates (codes (cabinet.render 2 true (.cell 0))) ∧
    Alternates (codes (cabinet.renderNested 2 true (.cell 0))) := by
  have clean : cabinet.IsCleanFrom (.cell 0) := by
    have each : ∀ u ∈ [Value.cell 0, .cell 1, .cell 2, .cell 3],
        (cabinet.payload u).isFunction = false ∧
          ∀ content ∈ (cabinet.payload u).texts, IsClean content.toList := by decide
    exact fun u reached => each u (reached.mem_of_closed (by decide) (by decide))
  obtain ⟨same, same', turns, turns', -⟩ := colours_wrap_tokens clean 2
  exact ⟨clean, by decide +kernel, by decide +kernel, same, same', turns, turns'⟩

end ValueMachine
