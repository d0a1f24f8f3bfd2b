import ValueMachine.Proofs.Number.NumeralGrammar
import ValueMachine.Proofs.Text.Offsets

/-!
# Numerals measured among bytes

The numeral at the front of a text is measured among the bytes of the text and cut out of it. All
characters of a numeral are single bytes, so it has as many bytes as characters, and it ends between
two characters.

Results:
* `startsWith_bytesOf`, `takeWhile_isDigitByte`: what is tested of bytes;
* `Takes`: parts that are measured and taken off the front;
* `leading?_cases`: the numeral that is measured is the one that is scanned.
-/

namespace ValueMachine.Number

open Json (IsDigits SpellsExponent)
open Numeral
open Text (bytesOf)

/-! ## Bytes of characters below `0x80` -/

theorem encodeChar_of_lt {c : Char} (lt : c.toNat < 128) :
    String.utf8EncodeChar c = [c.toUInt8] := by
  have low : c.val.toNat ≤ 127 := Nat.le_of_lt_succ lt
  rw [String.utf8EncodeChar, if_pos low]
  rfl

theorem le_of_mem_encodeChar {c : Char} (le : 128 ≤ c.toNat) :
    ∀ byte ∈ String.utf8EncodeChar c, 128 ≤ byte.toNat := by
  have bounds := Text.Utf8.codePoint_bounds c
  have high : 128 ≤ c.val.toNat := le
  rw [String.utf8EncodeChar]
  generalize c.val.toNat = v at bounds high
  have byte {n : ℕ} (le : 128 ≤ n) (lt : n < 256) : 128 ≤ (UInt8.ofNat n).toNat := by
    have : (UInt8.ofNat n).toNat = n := by simp; omega
    omega
  split_ifs with one two three
  · omega
  · simp only [List.forall_mem_cons]
    exact ⟨byte (by omega) (by omega), byte (by omega) (by omega), nofun⟩
  · simp only [List.forall_mem_cons]
    exact ⟨byte (by omega) (by omega), byte (by omega) (by omega), byte (by omega) (by omega), nofun⟩
  · simp only [List.forall_mem_cons]
    exact ⟨byte (by omega) (by omega), byte (by omega) (by omega), byte (by omega) (by omega),
      byte (by omega) (by omega), nofun⟩

theorem toNat_toUInt8 {c : Char} (lt : c.toNat < 128) : c.toUInt8.toNat = c.toNat := by
  show c.val.toUInt8.toNat = c.toNat
  rw [UInt32.toNat_toUInt8]
  exact Nat.mod_eq_of_lt (Nat.lt_trans lt (by decide))

/-- The first byte of a text is its first character or a byte from `0x80` on. -/
theorem bytesOf_cons_cases (c : Char) (text : List Char) :
    c.toNat < 128 ∧ bytesOf (c :: text) = c.toUInt8 :: bytesOf text ∨
      128 ≤ c.toNat ∧ ∃ byte bytes, 128 ≤ byte.toNat ∧ bytesOf (c :: text) = byte :: bytes := by
  rcases Nat.lt_or_ge c.toNat 128 with low | high
  · left
    rw [Text.bytesOf_cons, encodeChar_of_lt low]
    exact ⟨low, rfl⟩
  · obtain ⟨byte, others, eq, -, -⟩ := Text.encodeChar_eq_cons c
    have large := le_of_mem_encodeChar high byte (by rw [eq]; exact List.mem_cons_self)
    right
    rw [Text.bytesOf_cons, eq]
    exact ⟨high, byte, _, large, rfl⟩

/-- A text begins with such a character exactly if its bytes do. -/
theorem startsWith_bytesOf {c : Char} (lt : c.toNat < 128) (text : List Char) :
    startsWith c (bytesOf text) = decide (text.head? = some c) := by
  have own := toNat_toUInt8 lt
  rw [startsWith, Bool.eq_iff_iff, beq_iff_eq, decide_eq_true_eq]
  cases text with
  | nil => exact iff_of_false nofun nofun
  | cons d text =>
    rw [List.head?_cons, Option.some_inj]
    rcases bytesOf_cons_cases d text with ⟨low, eq⟩ | ⟨high, byte, bytes, large, eq⟩
    · rw [eq, List.head?_cons, Option.some_inj, ← UInt8.toNat_inj, own, toNat_toUInt8 low,
        Char.toNat_inj]
    · rw [eq, List.head?_cons, Option.some_inj]
      refine iff_of_false ?_ ?_
      · rintro rfl
        omega
      · rintro rfl
        omega

theorem isDigitByte_iff (byte : UInt8) :
    isDigitByte byte = true ↔ 48 ≤ byte.toNat ∧ byte.toNat ≤ 57 := by
  rw [isDigitByte, Bool.and_eq_true, decide_eq_true_eq, decide_eq_true_eq, UInt8.le_iff_toNat_le,
    UInt8.le_iff_toNat_le]
  rfl

theorem isDigit_iff (c : Char) : c.isDigit = true ↔ 48 ≤ c.toNat ∧ c.toNat ≤ 57 := by
  rw [Char.isDigit, Bool.and_eq_true, decide_eq_true_eq, decide_eq_true_eq]
  exact Iff.rfl

/-- The digits at the front of a text are those at the front of its bytes. -/
theorem takeWhile_isDigitByte (text : List Char) :
    (bytesOf text).takeWhile isDigitByte = bytesOf (text.takeWhile Char.isDigit) := by
  induction text with
  | nil => rfl
  | cons c text ih =>
    have digit := isDigit_iff c
    rcases bytesOf_cons_cases c text with ⟨low, eq⟩ | ⟨high, byte, bytes, large, eq⟩
    · have same : isDigitByte c.toUInt8 = c.isDigit := by
        rw [Bool.eq_iff_iff, isDigitByte_iff, toNat_toUInt8 low, digit]
      rw [eq, List.takeWhile_cons, List.takeWhile_cons, same, ih]
      split
      · rw [Text.bytesOf_cons, encodeChar_of_lt low]
        rfl
      · rfl
    · have noDigit : ¬c.isDigit = true := by rw [digit]; omega
      have noDigit' : ¬isDigitByte byte = true := by rw [isDigitByte_iff]; omega
      rw [eq, List.takeWhile_cons_of_neg noDigit', List.takeWhile_cons_of_neg noDigit]
      rfl

/-! ## Measuring -/

/-- A part is taken off the front of a text, as much as is measured among the bytes. Each of its
characters is one byte. -/
structure Takes (text part rest : List Char) (length : ℕ) : Prop where
  split : text = part ++ rest
  low : ∀ c ∈ part, c.toNat < 128
  measured : length = part.length

theorem length_bytesOf_of_low {part : List Char} (low : ∀ c ∈ part, c.toNat < 128) :
    (bytesOf part).length = part.length := by
  induction part with
  | nil => rfl
  | cons c part ih =>
    obtain ⟨first, others⟩ := List.forall_mem_cons.mp low
    rw [Text.bytesOf_cons, List.length_append, ih others, encodeChar_of_lt first, List.length_cons]
    exact Nat.add_comm ..

namespace Takes

variable {text part rest part' rest' : List Char} {length length' : ℕ}

theorem nil (text : List Char) : Takes text [] text 0 := ⟨rfl, nofun, rfl⟩

/-- The bytes that are left. -/
theorem drop (takes : Takes text part rest length) : (bytesOf text).drop length = bytesOf rest := by
  obtain ⟨rfl, low, rfl⟩ := takes
  rw [← length_bytesOf_of_low low, Text.bytesOf_append, List.drop_left]

theorem append (takes : Takes text part rest length) (takes' : Takes rest part' rest' length') :
    Takes text (part ++ part') rest' (length + length') := by
  obtain ⟨rfl, low, rfl⟩ := takes
  obtain ⟨rfl, low', rfl⟩ := takes'
  exact ⟨(List.append_assoc ..).symm, List.forall_mem_append.mpr ⟨low, low'⟩,
    (List.length_append ..).symm⟩

/-- The text can be cut at the end of the part. -/
theorem splitAt? (takes : Takes text part rest length) :
    Text.splitAt? length text = some (part, rest) := by
  obtain ⟨rfl, low, rfl⟩ := takes
  rw [← length_bytesOf_of_low low, Text.splitAt?_append]

/-- A part after another one can be cut out. -/
theorem between? (takes : Takes text part rest length) (takes' : Takes rest part' rest' length') :
    Text.between? length (length + length') text = some part' := by
  rw [Text.between?, takes.splitAt?]
  show (Text.splitAt? (length + length' - length) rest).bind (fun cut => some cut.1) = _
  rw [Nat.add_sub_cancel_left, takes'.splitAt?]
  rfl

/-- The part can be cut out. -/
theorem cut (takes : Takes text part rest length) : Text.between? 0 length text = some part := by
  have cut := (Takes.nil text).between? takes
  rwa [Nat.zero_add] at cut

end Takes

/-- One character, if it is one byte. -/
theorem Takes.single {c : Char} (lt : c.toNat < 128) (rest : List Char) :
    Takes (c :: rest) [c] rest 1 :=
  ⟨rfl, List.forall_mem_singleton.mpr lt, rfl⟩

theorem takes_sign (text : List Char) : ∃ sign, SpellsSign (scanSign text).1 sign ∧
    Takes text sign (scanSign text).2 (signLength (bytesOf text)) := by
  rw [signLength, startsWith_bytesOf (by decide), startsWith_bytesOf (by decide), scanSign.eq_def]
  split
  · next rest => exact ⟨['+'], .plus, Takes.single (by decide) rest⟩
  · next rest => exact ⟨['-'], .minus, Takes.single (by decide) rest⟩
  · next noPlus noMinus =>
    have plus : text.head? ≠ some '+' := by
      intro head
      obtain ⟨rest, rfl⟩ := List.head?_eq_some_iff.mp head
      exact noPlus rest rfl
    have minus : text.head? ≠ some '-' := by
      intro head
      obtain ⟨rest, rfl⟩ := List.head?_eq_some_iff.mp head
      exact noMinus rest rfl
    rw [decide_eq_false plus, decide_eq_false minus]
    exact ⟨[], .none, .nil text⟩

theorem takes_digits (text : List Char) :
    Takes text (scanDigits text).1 (scanDigits text).2 (digitsLength (bytesOf text)) := by
  have low : ∀ c ∈ text.takeWhile Char.isDigit, c.toNat < 128 := by
    intro c mem
    have := (isDigit_iff c).mp (List.mem_takeWhile_imp mem)
    omega
  refine ⟨List.takeWhile_append_dropWhile.symm, low, ?_⟩
  rw [digitsLength, takeWhile_isDigitByte]
  exact length_bytesOf_of_low low

theorem takes_point (text : List Char) : ∃ part,
    Takes text part (scanFraction text).2 (pointLength (bytesOf text)) ∧
      (part = [] ∧ (scanFraction text).1 = [] ∨ part = '.' :: (scanFraction text).1) := by
  rw [pointLength, startsWith_bytesOf (by decide), scanFraction.eq_def]
  split
  · next rest =>
    have point := Takes.single (c := '.') (by decide) rest
    refine ⟨_, ?_, .inr rfl⟩
    rw [List.head?_cons, decide_eq_true rfl, if_pos rfl, point.drop]
    exact point.append (takes_digits rest)
  · next noPoint =>
    have point : text.head? ≠ some '.' := by
      intro head
      obtain ⟨rest, rfl⟩ := List.head?_eq_some_iff.mp head
      exact noPoint rest rfl
    rw [decide_eq_false point]
    exact ⟨[], .nil text, .inl ⟨rfl, rfl⟩⟩

/-- An exponent with its sign and its digits. -/
theorem spellsExponent_of_sign {mark : Char} {negative : Bool} {sign digits : List Char}
    (isMark : mark = 'e' ∨ mark = 'E') (isSign : SpellsSign negative sign) (is : IsDigits digits) :
    SpellsExponent (some (negative, digits)) (mark :: sign ++ digits) := by
  cases isSign with
  | none => exact .digits isMark is
  | plus => exact .plus isMark is
  | minus => exact .minus isMark is

theorem takes_exponent (text : List Char) : ∃ exponent part,
    Takes text part (scanExponent text).2 (exponentLength (bytesOf text)) ∧
      SpellsExponent exponent part ∧ (scanExponent text).1 = exponentPower exponent := by
  cases text with
  | nil => exact ⟨none, [], .nil [], .none, rfl⟩
  | cons mark rest =>
    have starts :
        (startsWith 'e' (bytesOf (mark :: rest)) || startsWith 'E' (bytesOf (mark :: rest))) =
          decide (mark = 'e' ∨ mark = 'E') := by
      rw [startsWith_bytesOf (by decide), startsWith_bytesOf (by decide)]
      simp [Bool.decide_or]
    rw [scanExponent, exponentLength, starts]
    by_cases isMark : mark = 'e' ∨ mark = 'E'
    · have low : mark.toNat < 128 := by rcases isMark with rfl | rfl <;> decide
      obtain ⟨sign, isSign, takesSign⟩ := takes_sign rest
      have takesMark := Takes.single low rest
      have takesSigned := takesMark.append takesSign
      have takesDigits := takes_digits (scanSign rest).2
      have digits : ∀ c ∈ (scanDigits (scanSign rest).2).1, c.isDigit = true :=
        fun c mem => List.mem_takeWhile_imp mem
      rw [if_pos isMark, decide_eq_true isMark, if_pos rfl, takesMark.drop]
      dsimp only
      rw [takesSigned.drop]
      by_cases none : (scanDigits (scanSign rest).2).1 = []
      · have zero : digitsLength (bytesOf (scanSign rest).2) = 0 := by
          rw [takesDigits.measured, none]
          rfl
        rw [none, zero]
        exact ⟨.none, [], .nil _, .none, rfl⟩
      · have some : digitsLength (bytesOf (scanSign rest).2) ≠ 0 := by
          rw [takesDigits.measured]
          exact mt List.eq_nil_of_length_eq_zero none
        rw [if_neg some, if_neg (mt List.isEmpty_iff.mp none), digitsValue_eq]
        exact ⟨_, _, takesSigned.append takesDigits,
          spellsExponent_of_sign isMark isSign ⟨none, digits⟩, rfl⟩
    · rw [if_neg isMark, decide_eq_false isMark]
      exact ⟨none, [], .nil _, .none, rfl⟩

/-! ## Words and decimals -/

/-- A word stands at the front in lower case if it is taken off. -/
theorem isPrefixOf_map_toLower (word : String) (text : List Char) :
    word.toList.isPrefixOf (text.map Char.toLower) = true ↔ IsWord word (text.take word.length) := by
  rw [List.isPrefixOf_iff_prefix, List.prefix_iff_eq_take, IsWord, String.length_toList,
    List.map_take]
  exact eq_comm

/-- What the point and the digits after it are taken for, if there are any digits. -/
theorem spellsDigits_of_point {whole fraction part : List Char}
    (digits : ∀ c ∈ whole, c.isDigit = true) (digits' : ∀ c ∈ fraction, c.isDigit = true)
    (point : part = [] ∧ fraction = [] ∨ part = '.' :: fraction) (some : whole ++ fraction ≠ []) :
    SpellsDigits whole fraction (whole ++ part) := by
  have is : IsDigits (whole ++ fraction) := ⟨some, List.forall_mem_append.mpr ⟨digits, digits'⟩⟩
  rcases point with ⟨rfl, rfl⟩ | rfl
  · rw [List.append_nil] at is ⊢
    exact .plain is
  · exact .point is

theorem digits_scanFraction (text : List Char) : ∀ c ∈ (scanFraction text).1, c.isDigit = true := by
  rw [scanFraction.eq_def]
  split
  · exact fun c mem => List.mem_takeWhile_imp mem
  · exact List.forall_mem_nil _

/-- Digits and a point are nothing at all, or a lone point, exactly if there are no digits. -/
theorem no_digits_iff {whole fraction part : List Char} (digits : ∀ c ∈ whole, c.isDigit = true)
    (point : part = [] ∧ fraction = [] ∨ part = '.' :: fraction) :
    whole ++ part = [] ∨ whole ++ part = ['.'] ↔ whole ++ fraction = [] := by
  have noPoint : '.' ∉ whole := fun mem => absurd (digits '.' mem) (by decide)
  rcases point with ⟨rfl, rfl⟩ | rfl
  · refine or_iff_left fun eq => noPoint ?_
    rw [← List.append_nil whole, eq]
    exact List.mem_singleton_self '.'
  · cases whole with
    | nil => simp
    | cons c whole =>
      refine iff_of_false ?_ (List.cons_ne_nil _ _)
      rintro (eq | eq)
      · cases eq
      · rw [List.cons_append, List.cons.injEq, List.append_eq_nil_iff] at eq
        cases eq.2.2

theorem toNat_lt_of_toLower {c : Char} (low : c.toLower.toNat < 128) : c.toNat < 128 := by
  by_cases upper : c.val ≥ 'A'.val ∧ c.val ≤ 'Z'.val
  · have le : c.toNat ≤ 90 := upper.2
    omega
  · have same : c.toLower = c := dif_neg upper
    rwa [same] at low

theorem takes_word {word : String} {text : List Char} (is : IsWord word (text.take word.length))
    (low : ∀ c ∈ word.toList, c.toNat < 128) :
    Takes text (text.take word.length) (text.drop word.length) word.length := by
  refine ⟨(List.take_append_drop ..).symm, fun c mem => ?_, ?_⟩
  · apply toNat_lt_of_toLower
    apply low
    rw [← is]
    exact List.mem_map_of_mem mem
  · rw [← List.length_map Char.toLower, is, String.length_toList]

/-! ## The numeral at the front -/

section Leading

variable {text sign unsigned : List Char} {negative : Bool}

/-- The words are looked for one after the other. -/
theorem word?_eq (text : List Char) : word? text =
    if IsWord "infinity" (text.take "infinity".length) then some "infinity"
    else if IsWord "inf" (text.take "inf".length) then some "inf"
    else if IsWord "nan" (text.take "nan".length) then some "nan"
    else none := by
  have test (word : String) : word.toList.isPrefixOf (text.map Char.toLower) =
      decide (IsWord word (text.take word.length)) := by
    rw [Bool.eq_iff_iff, isPrefixOf_map_toLower, decide_eq_true_eq]
  rw [word?, words]
  simp only [List.find?_cons, List.find?_nil, test]
  split_ifs <;> simp [*]

theorem low_of_mem_words : ∀ word ∈ words, ∀ c ∈ word.toList, c.toNat < 128 := by
  rw [words]
  simp

/-- A word at the front is measured. -/
theorem leading?_of_word? (takes : Takes text sign unsigned (signLength (bytesOf text)))
    {word : String} (mem : word ∈ words) (is : IsWord word (unsigned.take word.length))
    (finds : word? unsigned = some word) :
    leading? text = some (sign ++ unsigned.take word.length) := by
  rw [leading?, takes.splitAt?]
  simp only [Option.bind_eq_bind, Option.bind_some, finds]
  exact (takes.append (takes_word is (low_of_mem_words word mem))).cut

/-- Without a word, digits with a point and an exponent are measured. -/
theorem leading?_of_word?_eq_none (takes : Takes text sign unsigned (signLength (bytesOf text)))
    (absent : word? unsigned = none) {whole afterWhole point afterPoint part rest : List Char}
    (takesWhole : Takes unsigned whole afterWhole (digitsLength (bytesOf unsigned)))
    (takesPoint : Takes afterWhole point afterPoint (pointLength (bytesOf afterWhole)))
    (takesExponent : Takes afterPoint part rest (exponentLength (bytesOf afterPoint))) :
    leading? text = if whole ++ point = [] ∨ whole ++ point = ['.'] then some []
      else some (sign ++ (whole ++ point) ++ part) := by
  have takesDigits := takesWhole.append takesPoint
  have stop : signLength (bytesOf text) + digitsLength (bytesOf unsigned) +
      pointLength (bytesOf afterWhole) = signLength (bytesOf text) +
        (digitsLength (bytesOf unsigned) + pointLength (bytesOf afterWhole)) := Nat.add_assoc ..
  have empty : signLength (bytesOf text) + (digitsLength (bytesOf unsigned) +
      pointLength (bytesOf afterWhole)) = signLength (bytesOf text) ↔ whole ++ point = [] := by
    rw [takesDigits.measured, Nat.add_eq_left, List.length_eq_zero_iff]
  rw [leading?, takes.splitAt?]
  simp only [Option.bind_eq_bind, Option.bind_some, absent]
  rw [takes.drop, (takes.append takesWhole).drop, stop, (takes.append takesDigits).drop,
    takes.between? takesDigits, ((takes.append takesDigits).append takesExponent).cut]
  by_cases none : whole ++ point = []
  · rw [if_pos (empty.mpr none), if_pos (.inl none)]
    rfl
  · rw [if_neg (mt empty.mp none)]
    show (if whole ++ point = ['.'] then _ else _) = _
    simp only [none, false_or]
    rfl

/-- Without a word, a decimal is measured if there is one. -/
theorem leading?_decimal (takes : Takes text sign unsigned (signLength (bytesOf text)))
    (absent : word? unsigned = none) :
    scanDecimal? unsigned = none ∧ leading? text = some [] ∨
      ∃ whole fraction digits exponent part rest, unsigned = digits ++ part ++ rest ∧
        SpellsDigits whole fraction digits ∧ SpellsExponent exponent part ∧
        scanDecimal? unsigned =
          some (whole ++ fraction, exponentPower exponent - fraction.length, rest) ∧
        leading? text = some (sign ++ (digits ++ part)) := by
  have takesWhole := takes_digits unsigned
  have digits : ∀ c ∈ (scanDigits unsigned).1, c.isDigit = true :=
    fun c mem => List.mem_takeWhile_imp mem
  have digits' := digits_scanFraction (scanDigits unsigned).2
  obtain ⟨point, takesPoint, isPoint⟩ := takes_point (scanDigits unsigned).2
  obtain ⟨exponent, part, takesExponent, isExponent, power⟩ :=
    takes_exponent (scanFraction (scanDigits unsigned).2).2
  have leads := leading?_of_word?_eq_none takes absent takesWhole takesPoint takesExponent
  simp only [no_digits_iff digits isPoint] at leads
  by_cases none : (scanDigits unsigned).1 ++ (scanFraction (scanDigits unsigned).2).1 = []
  · rw [if_pos none] at leads
    refine .inl ⟨?_, leads⟩
    show (if ((scanDigits unsigned).1.isEmpty &&
      (scanFraction (scanDigits unsigned).2).1.isEmpty) = true then _ else _) = _
    rw [if_pos (by simpa using none)]
  · rw [if_neg none, List.append_assoc] at leads
    have split := ((takesWhole.append takesPoint).append takesExponent).split
    refine .inr ⟨_, _, _, exponent, part, _, split,
      spellsDigits_of_point digits digits' isPoint none, isExponent, ?_, leads⟩
    rw [← power]
    exact scanDecimal?_eq none rfl rfl rfl

/-- A numeral is scanned at the front exactly if one is measured there, and it is the same one. -/
theorem leading?_cases (text : List Char) :
    scan text = none ∧ leading? text = some [] ∨
      ∃ n front rest, text = front ++ rest ∧ SpellsNumeral n front ∧
        scan text = some (n.numeral, rest) ∧ leading? text = some front := by
  obtain ⟨sign, isSign, takes⟩ := takes_sign text
  have finds := word?_eq (scanSign text).2
  rw [scan]
  generalize scanSign text = signed at *
  obtain ⟨negative, unsigned⟩ := signed
  have split (k : ℕ) : text = sign ++ unsigned.take k ++ unsigned.drop k := by
    rw [List.append_assoc, List.take_append_drop]
    exact takes.split
  dsimp only at *
  by_cases long : IsWord "infinity" (unsigned.take "infinity".length)
  · rw [if_pos long] at finds
    rw [scanWord?_eq, if_pos long]
    exact .inr ⟨_, _, _, split _, .infinite isSign (.inl long), rfl,
      leading?_of_word? takes (by simp [words]) long finds⟩
  rw [if_neg long] at finds
  rw [scanWord?_eq, if_neg long]
  by_cases short : IsWord "inf" (unsigned.take "inf".length)
  · rw [if_pos short] at finds
    rw [scanWord?_eq, if_pos short]
    exact .inr ⟨_, _, _, split _, .infinite isSign (.inr short), rfl,
      leading?_of_word? takes (by simp [words]) short finds⟩
  rw [if_neg short] at finds
  rw [scanWord?_eq, if_neg short]
  by_cases nan : IsWord "nan" (unsigned.take "nan".length)
  · rw [if_pos nan] at finds
    rw [scanWord?_eq, if_pos nan]
    exact .inr ⟨_, _, _, split _, .nan isSign nan, rfl,
      leading?_of_word? takes (by simp [words]) nan finds⟩
  rw [if_neg nan] at finds
  rw [scanWord?_eq, if_neg nan]
  rcases leading?_decimal takes finds with ⟨scans, leads⟩ |
      ⟨whole, fraction, digits, exponent, part, rest, eq, isDigits, isExponent, scans, leads⟩
  · rw [scans]
    exact .inl ⟨rfl, leads⟩
  · rw [scans]
    refine .inr ⟨_, _, rest, ?_, .decimal isSign isDigits isExponent, rfl, leads⟩
    rw [takes.split, eq]
    simp only [List.append_assoc]

end Leading

end ValueMachine.Number
