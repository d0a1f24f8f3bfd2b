import ValueMachine.Builtin.Console
import ValueMachine.Builtin.Files
import ValueMachine.Proofs.Heap.Graph
import ValueMachine.Proofs.Machine.Running
import ValueMachine.Proofs.Text.Lines

/-!
# Lines of files and of the console

A file is read as a whole and cut into lines; the console reads one line at a time, until the status
says that there are no more.

Results:
* `readLines_eq`: the array that a file is read to;
* `exists_readsLines`: the lines that the console reads;
* `line_readers`: both are the lines of the text, but for a carriage return at its end.
-/

namespace ValueMachine

/-- The values are texts of these characters. -/
def Heap.HoldsTexts (h : Heap) (vs : List Value) (texts : List (List Char)) : Prop :=
  vs.map h.payload = texts.map fun text => .text false (.ofList text)

/-- Texts stay what they are. -/
theorem Heap.HoldsTexts.mono {h h' : Heap} {vs : List Value} {texts : List (List Char)}
    (holds : h.HoldsTexts vs texts) (grows : h.Grows h') : h'.HoldsTexts vs texts := by
  rw [HoldsTexts, ← holds]
  refine List.map_congr_left fun v mem => grows.payload_eq ?_
  have text : h.payload v ∈ texts.map fun text => Payload.text false (.ofList text) :=
    holds ▸ List.mem_map_of_mem mem
  obtain ⟨_, _, eq⟩ := List.mem_map.mp text
  rw [← eq]
  exact Payload.noConfusion

theorem Heap.holdsTexts_alloc (h : Heap) (text : List Char) :
    (h.alloc (.ofPayload (.text false (.ofList text)))).2.HoldsTexts
      [(h.alloc (.ofPayload (.text false (.ofList text)))).1] [text] :=
  congrArg (fun c => [Cell.payload c]) (h.cell_alloc_self _)

theorem Heap.HoldsTexts.append {h : Heap} {vs vs' : List Value} {texts texts' : List (List Char)}
    (holds : h.HoldsTexts vs texts) (holds' : h.HoldsTexts vs' texts') :
    h.HoldsTexts (vs ++ vs') (texts ++ texts') := by
  rw [HoldsTexts, List.map_append, List.map_append, holds, holds']

/-! ## Files -/

namespace Files

/-- Texts are made one after the other. -/
theorem exists_mapM_ofChars (config : Config) (files : FileTree) (texts : List (List Char)) :
    ∀ h : Heap, ∃ vs h',
      AttemptOn.perform (texts.mapM fun text => (Value.ofChars text : FileAttempt Value)) config
        files h = ((.ok vs, files), h') ∧ h.Grows h' ∧ h'.HoldsTexts vs texts := by
  induction texts with
  | nil => exact fun h => ⟨[], h, rfl, .refl h, rfl⟩
  | cons text texts ih =>
    intro h
    have made : AttemptOn.perform (Value.ofChars text : FileAttempt Value) config files h =
      ((.ok (h.alloc (.ofPayload (.text false (.ofList text)))).1, files),
        (h.alloc (.ofPayload (.text false (.ofList text)))).2) := rfl
    obtain ⟨vs, h', ran, grows, others⟩ := ih (h.alloc (.ofPayload (.text false (.ofList text)))).2
    refine ⟨_ :: vs, h', ?_, (h.grows_alloc _).trans grows,
      ((h.holdsTexts_alloc text).mono grows).append others⟩
    rw [List.mapM_cons, AttemptOn.bind_ok made, AttemptOn.bind_ok ran]
    rfl

theorem readAll_eq {config : Config} {files : FileTree} {h : Heap} {path : Value} {isStatic : Bool}
    {name : String} {content : List UInt8} (named : h.payload path = .text isStatic name)
    (stored : files.read name = .ok content) (operation : String) (kind : Kind) :
    (readAll path operation kind).perform config files h = ((.ok content, files), h) := by
  have is : Payload.text? (h.payload path) = some name := by rw [named]; rfl
  have arg : AttemptOn.perform (liftM (textArg path operation "path" kind) : FileAttempt String) config
      files h = ((.ok name, files), h) := by
    rw [AttemptOn.perform_lift, textArg, perform_require _ config is]
  have found : (ask (·.read name) operation "cannot open file" (Value.nullOf kind)).perform config
      files h = ((.ok content, files), h) := by
    have look : AttemptOn.perform (get : FileAttempt FileTree) config files h =
      ((.ok files, files), h) := rfl
    rw [ask, AttemptOn.bind_ok look, stored]
    rfl
  rw [readAll, AttemptOn.bind_ok arg, found]

/-- A file of a text is read to an array of the text's lines. -/
theorem readLines_eq {m : Machine} {path : Value} {isStatic : Bool} {name text : String}
    (named : m.heap.payload path = .text isStatic name)
    (stored : m.files.read name = .ok (Text.Utf8.encode text)) :
    ∃ w m' vs, (settle (readLines path)).run.run m = (.ok w, m') ∧ m'.status = .ok ∧
      m'.heap.payload w = .array vs.toArray ∧ m'.heap.HoldsTexts vs (Text.lines text.toList) := by
  obtain ⟨vs, h', made, grows, holds⟩ :=
    exists_mapM_ofChars m.config m.files (Text.lines text.toList) m.heap
  let array := h'.alloc (.ofPayload (.array vs.toArray))
  have ran : AttemptOn.perform (readLines path) m.config m.files m.heap =
      ((.ok array.1, m.files), array.2) := by
    rw [readLines, AttemptOn.bind_ok (readAll_eq named stored _ _)]
    dsimp only
    rw [Text.Utf8.decodeLossy_encode, AttemptOn.bind_ok made]
    rfl
  exact ⟨array.1, _, vs, settle_files_ok ran, rfl, congrArg Cell.payload (h'.cell_alloc_self _),
    holds.mono (h'.grows_alloc _)⟩

end Files

/-! ## The console -/

namespace Console

/-- Lines are read off a stream one after the other until the status says that it is at its end. -/
inductive ReadsLines : Machine → List UInt8 → List Value → Machine → Prop
  | ended {m m' : Machine} {stream rest : List UInt8} {v : Value}
    (ran : (readLineFrom stream).run.run m = (.ok (v, rest), m'))
    (ended : m'.status.code = .endOfInput) : ReadsLines m stream [] m'
  | line {m m₁ m' : Machine} {stream rest : List UInt8} {v : Value} {vs : List Value}
    (ran : (readLineFrom stream).run.run m = (.ok (v, rest), m₁))
    (goesOn : m₁.status.code ≠ .endOfInput) (others : ReadsLines m₁ rest vs m') :
    ReadsLines m stream (v :: vs) m'

/-- What is read is determined by the stream. -/
theorem ReadsLines.unique {m m₁ m₂ : Machine} {stream : List UInt8} {vs₁ vs₂ : List Value}
    (reads₁ : ReadsLines m stream vs₁ m₁) (reads₂ : ReadsLines m stream vs₂ m₂) :
    vs₁ = vs₂ ∧ m₁ = m₂ := by
  induction reads₁ generalizing vs₂ with
  | ended ran ended =>
    cases reads₂ with
    | ended ran' _ => exact ⟨rfl, (Prod.mk.inj (ran.symm.trans ran')).2⟩
    | line ran' goesOn _ => exact absurd ((Prod.mk.inj (ran.symm.trans ran')).2 ▸ ended) goesOn
  | line ran goesOn _ ih =>
    cases reads₂ with
    | ended ran' ended => exact absurd ((Prod.mk.inj (ran'.symm.trans ran)).2 ▸ ended) goesOn
    | line ran' _ others =>
      obtain ⟨same, rfl⟩ := Prod.mk.inj (ran.symm.trans ran')
      obtain ⟨rfl, rfl⟩ := Prod.mk.inj (Except.ok.inj same)
      obtain ⟨rfl, rfl⟩ := ih others
      exact ⟨rfl, rfl⟩

/-- The machine after a line has been read. -/
theorem readLineFrom_line {stream rest : List UInt8} {text : List Char}
    (read : Text.readLine stream = (.line (.ofList text), rest)) (m : Machine) :
    (readLineFrom stream).run.run m =
      (.ok ((m.heap.alloc (.ofPayload (.text false (.ofList text)))).1, rest),
        { m with heap := (m.heap.alloc (.ofPayload (.text false (.ofList text)))).2,
                 status := .ok }) := by
  rw [readLineFrom, read]
  rfl

theorem readLineFrom_nil (m : Machine) :
    (readLineFrom (Text.bytesOf [])).run.run m =
      (.ok ((m.heap.alloc ⟨.string, .counted, .null⟩).1, []),
        { m with heap := (m.heap.alloc ⟨.string, .counted, .null⟩).2,
                 status := Fault.endOfInput.status }) := rfl

/-- A text on a stream is read to the lines of the stream, and then the stream is at its end. -/
theorem exists_readsLines (text : List Char) :
    ∀ m : Machine, ∃ vs m', ReadsLines m (Text.bytesOf text) vs m' ∧
      m'.status = Fault.endOfInput.status ∧ m.heap.Grows m'.heap ∧
      m'.heap.HoldsTexts vs (Text.streamLines text) := by
  have line {text rest : List Char} {lines : List (List Char)} {stream : List UInt8}
      (read : Text.readLine stream = (.line (.ofList text), Text.bytesOf rest))
      (others : ∀ m : Machine, ∃ vs m', ReadsLines m (Text.bytesOf rest) vs m' ∧
        m'.status = Fault.endOfInput.status ∧ m.heap.Grows m'.heap ∧
        m'.heap.HoldsTexts vs lines) (m : Machine) :
      ∃ vs m', ReadsLines m stream vs m' ∧ m'.status = Fault.endOfInput.status ∧
        m.heap.Grows m'.heap ∧ m'.heap.HoldsTexts vs (text :: lines) := by
    have ran := readLineFrom_line read m
    generalize made : m.heap.alloc (.ofPayload (.text false (.ofList text))) = new at ran
    have grown := m.heap.grows_alloc (.ofPayload (.text false (.ofList text)))
    have held := m.heap.holdsTexts_alloc text
    rw [made] at grown held
    obtain ⟨vs, m', reads, status, grows, holds⟩ := others { m with heap := new.2, status := .ok }
    exact ⟨new.1 :: vs, m', .line ran StatusCode.noConfusion reads, status, grown.trans grows,
      (held.mono grows).append holds⟩
  have ended (m : Machine) : ∃ vs m', ReadsLines m (Text.bytesOf []) vs m' ∧
      m'.status = Fault.endOfInput.status ∧ m.heap.Grows m'.heap ∧ m'.heap.HoldsTexts vs [] :=
    ⟨[], _, .ended (readLineFrom_nil m) rfl, rfl, m.heap.grows_alloc _, rfl⟩
  induction text using Text.lineInduction with
  | none => exact ended
  | last text some unbroken =>
    rw [Text.streamLines_last some unbroken]
    exact line (Text.readLine_last some unbroken) ended
  | append text rest unbroken ih =>
    rw [Text.streamLines_append unbroken]
    exact line (Text.readLine_append unbroken rest) ih

end Console

/-! ## Both -/

/-- A text has one list of lines. A file of the text is read to an array of them. The console reads
them too, one by one until the end of the stream; only when the text ends with a carriage return does
the last line lack it. -/
theorem line_readers {m : Machine} {path : Value} {isStatic : Bool} {name text : String}
    (named : m.heap.payload path = .text isStatic name)
    (stored : m.files.read name = .ok (Text.Utf8.encode text)) :
    ∃ lines, (∀ ls, Text.HasLines text.toList ls ↔ ls = lines) ∧
      (∃ w m' vs, (settle (Files.readLines path)).run.run m = (.ok w, m') ∧ m'.status = .ok ∧
        m'.heap.payload w = .array vs.toArray ∧ m'.heap.HoldsTexts vs lines) ∧
      ∃ vs m', (∀ us m'', Console.ReadsLines m (Text.Utf8.encode text) us m'' ↔ us = vs ∧ m'' = m') ∧
        m'.status = Fault.endOfInput.status ∧
        (text.toList.getLast? ≠ some '\r' → m'.heap.HoldsTexts vs lines) ∧
        (text.toList.getLast? = some '\r' → ∃ front last, lines = front ++ [last ++ ['\r']] ∧
          m'.heap.HoldsTexts vs (front ++ [last])) := by
  have has : Text.HasLines text.toList (Text.lines text.toList) := Text.hasLines_iff.mpr rfl
  obtain ⟨vs, m', reads, status, _, holds⟩ := Console.exists_readsLines text.toList m
  rw [Text.bytesOf, ← Text.Utf8.encode_eq] at reads
  refine ⟨_, fun ls => Text.hasLines_iff, Files.readLines_eq named stored, vs, m', fun us m'' => ?_,
    status, fun noReturn => ?_, fun returned => ?_⟩
  · refine ⟨fun reads' => reads'.unique reads, ?_⟩
    rintro ⟨rfl, rfl⟩
    exact reads
  · rwa [has.streamLines_eq noReturn] at holds
  · obtain ⟨front, last, eq, eq'⟩ := has.exists_streamLines returned
    exact ⟨front, last, eq, eq' ▸ holds⟩

/-- A machine with one file, whose name is in the first cell. -/
def oneFile (content : String) : Machine :=
  { Machine.start ⟨"linux", "2024-01-01 00:00:00", 0, 0.5⟩ [] with
    heap := .ofCells #[.ofPayload (.text false "notes")]
    files := ⟨[(["notes"], .file (Text.Utf8.encode content))]⟩ }

theorem named_oneFile (content : String) :
    (oneFile content).heap.payload (.cell 0) = .text false "notes" := rfl

theorem read_oneFile (content : String) :
    (oneFile content).files.read "notes" = .ok (Text.Utf8.encode content) := rfl

theorem line_readers_notes :
    let m := oneFile "one\r\n\n\rtwo\r\r"
    m.heap.payload (.cell 0) = .text false "notes" ∧
      m.files.read "notes" = .ok (Text.Utf8.encode "one\r\n\n\rtwo\r\r") ∧
      ∃ lines, (∀ ls, Text.HasLines "one\r\n\n\rtwo\r\r".toList ls ↔ ls = lines) ∧
        (∃ w m' vs, (settle (Files.readLines (.cell 0))).run.run m = (.ok w, m') ∧
          m'.status = .ok ∧ m'.heap.payload w = .array vs.toArray ∧ m'.heap.HoldsTexts vs lines) ∧
        ∃ vs m', (∀ us m'', Console.ReadsLines m (Text.Utf8.encode "one\r\n\n\rtwo\r\r") us m'' ↔
            us = vs ∧ m'' = m') ∧
          m'.status = Fault.endOfInput.status ∧
          ("one\r\n\n\rtwo\r\r".toList.getLast? ≠ some '\r' → m'.heap.HoldsTexts vs lines) ∧
          ("one\r\n\n\rtwo\r\r".toList.getLast? = some '\r' → ∃ front last,
            lines = front ++ [last ++ ['\r']] ∧ m'.heap.HoldsTexts vs (front ++ [last])) :=
  ⟨named_oneFile _, read_oneFile _, line_readers (named_oneFile _) (read_oneFile _)⟩

/-- A carriage return at the end of the text is in the last line of the file and not in that of the
console. -/
theorem line_readers_return :
    let m := oneFile "a\r"
    m.heap.payload (.cell 0) = .text false "notes" ∧
      m.files.read "notes" = .ok (Text.Utf8.encode "a\r") ∧
      Text.HasLines "a\r".toList [['a', '\r']] ∧
      (∃ w m' vs, (settle (Files.readLines (.cell 0))).run.run m = (.ok w, m') ∧ m'.status = .ok ∧
        m'.heap.payload w = .array vs.toArray ∧ m'.heap.HoldsTexts vs [['a', '\r']]) ∧
      ∃ vs m', Console.ReadsLines m (Text.Utf8.encode "a\r") vs m' ∧
        m'.heap.HoldsTexts vs [['a']] ∧ ¬m'.heap.HoldsTexts vs [['a', '\r']] := by
  intro m
  have lines : Text.lines "a\r".toList = [['a', '\r']] := by decide
  obtain ⟨w, m', vs, ran, ok, array, holds⟩ :=
    Files.readLines_eq (named_oneFile "a\r") (read_oneFile "a\r")
  obtain ⟨us, m'', reads, _, _, holds'⟩ := Console.exists_readsLines "a\r".toList m
  rw [lines] at holds
  rw [Text.bytesOf, ← Text.Utf8.encode_eq] at reads
  rw [show Text.streamLines "a\r".toList = [['a']] by decide] at holds'
  refine ⟨named_oneFile _, read_oneFile _, Text.hasLines_iff.mpr lines.symm,
    ⟨w, m', vs, ran, ok, array, holds⟩, us, m'', reads, holds', fun other => ?_⟩
  have same := holds'.symm.trans other
  simp at same

end ValueMachine
