import ValueMachine.Proofs.Text.Utf8Decoding
import ValueMachine.Text.Lines
import ValueMachine.Text.Offsets

/-!
# Lines of texts and of streams

A line of a text is what stands before a terminator, or at the end of the text without one. A stream
is read line by line in the same way, but the last line of a stream loses a carriage return at its
end, although no line feed follows.

Results:
* `hasLines_iff`: the lines of a text are those that `lines` gives;
* `readLine_append`, `readLine_last`: the lines of a stream, one by one;
* `HasLines.streamLines_eq`, `HasLines.exists_streamLines`: how they differ from those of the text.
-/

namespace ValueMachine.Text

/-! ## What lines are -/

/-- The lines of a text: a terminator is a line feed, with the carriage return before it if there is
one, and the last line need not have one. -/
inductive HasLines : List Char → List (List Char) → Prop
  | none : HasLines [] []
  | last {line : List Char} (some : line ≠ []) (unbroken : '\n' ∉ line) : HasLines line [line]
  | lineFeed {line text : List Char} {lines : List (List Char)} (unbroken : '\n' ∉ line)
    (noReturn : line.getLast? ≠ some '\r') (others : HasLines text lines) :
    HasLines (line ++ '\n' :: text) (line :: lines)
  | returned {line text : List Char} {lines : List (List Char)} (unbroken : '\n' ∉ line)
    (others : HasLines text lines) : HasLines (line ++ '\r' :: '\n' :: text) (line :: lines)

/-- A text is one line, or has a first one and a rest. -/
theorem unbroken_or_exists (text : List Char) :
    '\n' ∉ text ∨ ∃ line rest, '\n' ∉ line ∧ text = line ++ '\n' :: rest := by
  induction text with
  | nil => exact .inl List.not_mem_nil
  | cons c text ih =>
    by_cases feed : c = '\n'
    · exact .inr ⟨[], text, List.not_mem_nil, by rw [feed]; rfl⟩
    · obtain unbroken | ⟨line, rest, unbroken, rfl⟩ := ih
      · exact .inl (by simp [Ne.symm feed, unbroken])
      · exact .inr ⟨c :: line, rest, by simp [Ne.symm feed, unbroken], rfl⟩

/-- Induction along the line feeds of a text. -/
theorem lineInduction {motive : List Char → Prop} (none : motive [])
    (last : ∀ line, line ≠ [] → '\n' ∉ line → motive line)
    (append : ∀ line text, '\n' ∉ line → motive text → motive (line ++ '\n' :: text))
    (text : List Char) : motive text := by
  -- each line is taken off with its line feed, so the rest is shorter
  induction length : text.length using Nat.strong_induction_on generalizing text with
  | _ n ih =>
    obtain unbroken | ⟨line, rest, unbroken, rfl⟩ := unbroken_or_exists text
    · by_cases empty : text = []
      · exact empty ▸ none
      · exact last text empty unbroken
    · exact append line rest unbroken (ih rest.length (by simp at length; omega) rest rfl)

theorem exists_hasLines (text : List Char) : ∃ lines, HasLines text lines := by
  induction text using lineInduction with
  | none => exact ⟨[], .none⟩
  | last line some unbroken => exact ⟨[line], .last some unbroken⟩
  | append line text unbroken ih =>
    obtain ⟨lines, others⟩ := ih
    by_cases returned : line.getLast? = some '\r'
    · obtain ⟨front, rfl⟩ := List.getLast?_eq_some_iff.mp returned
      refine ⟨front :: lines, ?_⟩
      rw [List.append_assoc]
      exact .returned (fun mem => unbroken (List.mem_append_left _ mem)) others
    · exact ⟨line :: lines, .lineFeed unbroken returned others⟩

/-! ## Cutting a text -/

@[simp] theorem dropLast?_append (c : Char) (line : List Char) :
    dropLast? c (line ++ [c]) = some line := by
  simp [dropLast?]

theorem dropLast?_of_ne {c : Char} {line : List Char} (ne : line.getLast? ≠ some c) :
    dropLast? c line = none := if_neg ne

theorem getLast?_ne_of_notMem {c : Char} {line : List Char} (notMem : c ∉ line) :
    line.getLast? ≠ some c := fun last => notMem (List.mem_of_getLast? last)

theorem linesWithEnds_last {line : List Char} (some : line ≠ []) (unbroken : '\n' ∉ line) :
    linesWithEnds line = [line] := by
  induction line with
  | nil => exact absurd rfl some
  | cons c line ih =>
    rw [List.mem_cons, not_or] at unbroken
    rw [linesWithEnds, if_neg (Ne.symm unbroken.1)]
    by_cases empty : line = []
    · rw [empty]; rfl
    · rw [ih empty unbroken.2]

theorem linesWithEnds_append {line : List Char} (unbroken : '\n' ∉ line) (text : List Char) :
    linesWithEnds (line ++ '\n' :: text) = (line ++ ['\n']) :: linesWithEnds text := by
  induction line with
  | nil => rfl
  | cons c line ih =>
    rw [List.mem_cons, not_or] at unbroken
    rw [List.cons_append, linesWithEnds, if_neg (Ne.symm unbroken.1), ih unbroken.2]
    rfl

theorem HasLines.lines_eq {text : List Char} {ls : List (List Char)} (has : HasLines text ls) :
    lines text = ls := by
  induction has with
  | none => rfl
  | last some unbroken =>
    rw [lines, linesWithEnds_last some unbroken, List.map_singleton, dropTerminator,
      dropLast?_of_ne (getLast?_ne_of_notMem unbroken)]
  | @lineFeed line text ls unbroken noReturn _ ih =>
    rw [lines, linesWithEnds_append unbroken, List.map_cons, ← lines, ih, dropTerminator,
      dropLast?_append]
    dsimp only
    rw [dropLast?_of_ne noReturn, Option.getD_none]
  | @returned line text ls unbroken _ ih =>
    have unbroken' : '\n' ∉ line ++ ['\r'] := by simp [unbroken]
    rw [List.append_cons, lines, linesWithEnds_append unbroken', List.map_cons, ← lines, ih,
      dropTerminator, dropLast?_append]
    dsimp only
    rw [dropLast?_append, Option.getD_some]

/-- Every text has the lines that it is cut into, and no others. -/
theorem hasLines_iff {text : List Char} {ls : List (List Char)} :
    HasLines text ls ↔ ls = lines text := by
  refine ⟨fun has => has.lines_eq.symm, ?_⟩
  rintro rfl
  obtain ⟨ls, has⟩ := exists_hasLines text
  exact has.lines_eq.symm ▸ has

/-! ## Reading a stream -/

/-- The lines of a text as they come off a stream. -/
def streamLines (text : List Char) : List (List Char) := (linesWithEnds text).map dropConsoleEnd

theorem streamLines_last {line : List Char} (some : line ≠ []) (unbroken : '\n' ∉ line) :
    streamLines line = [(dropLast? '\r' line).getD line] := by
  rw [streamLines, linesWithEnds_last some unbroken, List.map_singleton, dropConsoleEnd,
    dropLast?_of_ne (getLast?_ne_of_notMem unbroken)]
  rfl

theorem streamLines_append {line : List Char} (unbroken : '\n' ∉ line) (text : List Char) :
    streamLines (line ++ '\n' :: text) = (dropLast? '\r' line).getD line :: streamLines text := by
  rw [streamLines, linesWithEnds_append unbroken, List.map_cons, ← streamLines, dropConsoleEnd,
    dropLast?_append]
  rfl

theorem bytesOf_lineFeed (text : List Char) : bytesOf ('\n' :: text) = 0x0A :: bytesOf text := rfl

theorem takeLine_append {bytes : List UInt8} (unbroken : 0x0A ∉ bytes) (rest : List UInt8) :
    takeLine (bytes ++ rest) = (bytes ++ (takeLine rest).1, (takeLine rest).2) := by
  induction bytes with
  | nil => rfl
  | cons byte bytes ih =>
    rw [List.mem_cons, not_or] at unbroken
    rw [List.cons_append, takeLine, if_neg (Ne.symm unbroken.1), ih unbroken.2]
    rfl

theorem lineFeed_notMem_bytesOf {line : List Char} (unbroken : '\n' ∉ line) :
    0x0A ∉ bytesOf line := by
  intro mem
  obtain ⟨c, hc, byte⟩ := List.mem_flatMap.mp mem
  exact unbroken (Utf8.lineFeed_mem_encodeChar.mp byte ▸ hc)

theorem bytesOf_ne_nil {text : List Char} (some : text ≠ []) : bytesOf text ≠ [] := by
  obtain ⟨c, text, rfl⟩ := List.exists_cons_of_ne_nil some
  rw [bytesOf, List.flatMap_cons]
  exact fun empty => Utf8.encodeChar_ne_nil c (List.append_eq_nil_iff.mp empty).1

/-- A line that the stream goes on after. -/
theorem takeLine_line {line : List Char} (unbroken : '\n' ∉ line) (text : List Char) :
    takeLine (bytesOf (line ++ '\n' :: text)) = (bytesOf (line ++ ['\n']), bytesOf text) := by
  rw [bytesOf_append, bytesOf_append, bytesOf_lineFeed,
    takeLine_append (lineFeed_notMem_bytesOf unbroken)]
  rfl

theorem takeLine_last {line : List Char} (unbroken : '\n' ∉ line) :
    takeLine (bytesOf line) = (bytesOf line, []) := by
  have taken := takeLine_append (lineFeed_notMem_bytesOf unbroken) []
  rwa [List.append_nil, takeLine, List.append_nil] at taken

/-- What is read when the stream goes on with the bytes of some characters. -/
theorem readLine_of_takeLine {stream rest : List UInt8} {line : List Char} (some : line ≠ [])
    (taken : takeLine stream = (bytesOf line, rest)) :
    readLine stream = (.line (.ofList (dropConsoleEnd line)), rest) := by
  have text := Utf8.decode?_flatMap line
  rw [readLine, taken]
  dsimp only
  rw [if_neg (by simpa using bytesOf_ne_nil some), bytesOf, text]
  simp

theorem readLine_last {line : List Char} (some : line ≠ []) (unbroken : '\n' ∉ line) :
    readLine (bytesOf line) = (.line (.ofList ((dropLast? '\r' line).getD line)), bytesOf []) := by
  rw [readLine_of_takeLine some (takeLine_last unbroken), dropConsoleEnd,
    dropLast?_of_ne (getLast?_ne_of_notMem unbroken)]
  rfl

theorem readLine_append {line : List Char} (unbroken : '\n' ∉ line) (text : List Char) :
    readLine (bytesOf (line ++ '\n' :: text)) =
      (.line (.ofList ((dropLast? '\r' line).getD line)), bytesOf text) := by
  rw [readLine_of_takeLine (by simp) (takeLine_line unbroken text), dropConsoleEnd,
    dropLast?_append]
  rfl

/-! ## Where they differ -/

theorem getLast?_line (line text : List Char) :
    (line ++ '\n' :: text).getLast? = some (text.getLast?.getD '\n') := by
  rw [List.getLast?_append, List.getLast?_cons]
  rfl

/-- Unless the text ends with a carriage return, a stream has the lines of the text. -/
theorem HasLines.streamLines_eq {text : List Char} {ls : List (List Char)} (has : HasLines text ls)
    (noReturn : text.getLast? ≠ some '\r') : streamLines text = ls := by
  induction has with
  | none => rfl
  | last some unbroken =>
    rw [streamLines_last some unbroken, dropLast?_of_ne noReturn, Option.getD_none]
  | @lineFeed line text ls unbroken noReturn' _ ih =>
    rw [getLast?_line] at noReturn
    rw [streamLines_append unbroken, dropLast?_of_ne noReturn', Option.getD_none,
      ih fun last => noReturn (by rw [last]; rfl)]
  | @returned line text ls unbroken _ ih =>
    have unbroken' : '\n' ∉ line ++ ['\r'] := by simp [unbroken]
    rw [List.append_cons, getLast?_line] at noReturn
    rw [List.append_cons, streamLines_append unbroken', dropLast?_append, Option.getD_some,
      ih fun last => noReturn (by rw [last]; rfl)]

/-- If the text ends with a carriage return, the last line of a stream lacks it. -/
theorem HasLines.exists_streamLines {text : List Char} {ls : List (List Char)}
    (has : HasLines text ls) (returned : text.getLast? = some '\r') :
    ∃ front last, ls = front ++ [last ++ ['\r']] ∧ streamLines text = front ++ [last] := by
  have goesOn {text : List Char} (last : some (text.getLast?.getD '\n') = some '\r') :
      text.getLast? = some '\r' := by
    cases eq : text.getLast? with
    | none => rw [eq] at last; simp at last
    | some c => rw [eq] at last; exact last
  induction has with
  | none => cases returned
  | @last line some unbroken =>
    obtain ⟨front, rfl⟩ := List.getLast?_eq_some_iff.mp returned
    exact ⟨[], front, rfl, by rw [streamLines_last some unbroken, dropLast?_append]; rfl⟩
  | @lineFeed line text ls unbroken noReturn _ ih =>
    rw [getLast?_line] at returned
    obtain ⟨front, last, rfl, eq⟩ := ih (goesOn returned)
    refine ⟨line :: front, last, rfl, ?_⟩
    rw [streamLines_append unbroken, dropLast?_of_ne noReturn, eq]
    rfl
  | @returned line text ls unbroken _ ih =>
    have unbroken' : '\n' ∉ line ++ ['\r'] := by simp [unbroken]
    rw [List.append_cons, getLast?_line] at returned
    obtain ⟨front, last, rfl, eq⟩ := ih (goesOn returned)
    refine ⟨line :: front, last, rfl, ?_⟩
    rw [List.append_cons, streamLines_append unbroken', dropLast?_append, eq]
    rfl

end ValueMachine.Text
