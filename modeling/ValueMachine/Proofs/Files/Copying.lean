import ValueMachine.Builtin.Files
import ValueMachine.Proofs.Files.Storing
import ValueMachine.Proofs.Machine.Running

/-!
# Copying files

Copying opens the source, empties the target, and only then reads the source. If there is nothing to
read by then, what the target held is lost: the source is a directory, or it is the target itself.

Results:
* `perform_ask`, `perform_change`: one step on the files;
* `exists_copyEnds`: how copying ends;
* `copies_or_spares`: when a copy is true to its result, and what it leaves otherwise.
-/

namespace ValueMachine

namespace FileTree

variable {t t' : FileTree} {source target : String} {done : Bool}

/-! ## What copying is for -/

/-- A copy that succeeds leaves in both places what the source held. One that fails leaves every file
as it was, and makes none. -/
def CopiesOrSpares (t t' : FileTree) (source target : String) : Bool → Prop
  | true => ∃ content, t.read source = .ok content ∧ t'.read target = .ok content ∧
      t'.read source = .ok content
  | false => ∀ path, t'.content? path = t.content? path

/-- Two written paths lead to one file. -/
def SameFile (t : FileTree) (written written' : String) : Prop :=
  ∃ path content, t.Names written path ∧ t.Names written' path ∧
    t.node? path = some (.file content)

/-- The target is emptied for a source that cannot be read any more: it is a directory, or it is the
target. A target without content has nothing to lose. -/
def Spoils (t : FileTree) (source target : String) : Prop :=
  (t.isDirectory source ∧ t.IsWritable target ∨ t.SameFile source target) ∧
    t.read target ≠ .ok []

/-! ## How copying ends -/

/-- Whether copying succeeds, and the files that it leaves. -/
inductive CopyEnds (t : FileTree) (source target : String) : Bool → FileTree → Prop
  /-- The source cannot be opened, or the target cannot be written. -/
  | refused (no : ¬((∃ node, t.openToRead source = .ok node) ∧ t.IsWritable target)) :
    CopyEnds t source target false t
  /-- The target is empty before the source turns out to be a directory. -/
  | unreadable {t' : FileTree} {path : FilePath} (is : t.isDirectory source)
    (names : t.Names target path) (free : t.node? path ≠ some .directory)
    (stores : t.Stores t' path []) : CopyEnds t source target false t'
  /-- The source is empty since the target has been emptied. -/
  | itself {t' : FileTree} {path : FilePath} {content : List UInt8} (names : t.Names source path)
    (names' : t.Names target path) (found : t.node? path = some (.file content))
    (stores : t.Stores t' path []) : CopyEnds t source target true t'
  | copied {t' : FileTree} {path other : FilePath} {content : List UInt8}
    (names : t.Names source other) (found : t.node? other = some (.file content))
    (names' : t.Names target path) (free : t.node? path ≠ some .directory) (ne : other ≠ path)
    (stores : t.Stores t' path content) : CopyEnds t source target true t'

/-- Once the target is empty, a file is read and the target is filled. What is read is what the source
held, or nothing if it is the target. -/
theorem exists_filled {t₁ : FileTree} {path : FilePath} {content : List UInt8}
    (opened : t.openToRead source = .ok (.file content)) (names : t.Names target path)
    (free : t.node? path ≠ some .directory) (emptied : t.Stores t₁ path []) :
    ∃ content' t₂, t₁.read source = .ok content' ∧ t₁.write target content' = .ok t₂ ∧
      CopyEnds t source target true t₂ := by
  have fill (content : List UInt8) :
      ∃ t₂, t₁.write target content = .ok t₂ ∧ t.Stores t₂ path content := by
    obtain ⟨t₂, wrote, stores⟩ := exists_write ((emptied.keepsDirectories free).names names)
      (node?_ne_directory emptied.stored) content
    exact ⟨t₂, wrote, emptied.trans stores⟩
  have read := read_eq_ok_iff_openToRead.mpr opened
  obtain ⟨other, names', found⟩ := read_eq_ok_iff.mp read
  by_cases same : other = path
  · subst same
    -- what is read has just been emptied
    obtain ⟨t₂, wrote, stores⟩ := fill []
    exact ⟨[], t₂, emptied.read_self names' free, wrote, .itself names' names found stores⟩
  · obtain ⟨t₂, wrote, stores⟩ := fill content
    have reads := emptied.read_other free read fun names'' => same (names'.unique names'')
    exact ⟨content, t₂, reads, wrote, .copied names' found names free same stores⟩

/-! ## When the target is spoilt -/

theorem not_spoils_of_refused
    (no : ¬((∃ node, t.openToRead source = .ok node) ∧ t.IsWritable target)) :
    ¬t.Spoils source target := by
  rintro ⟨⟨is, writable⟩ | ⟨path, content, names, names', found⟩, -⟩
  · exact no ⟨⟨_, isDirectory_iff.mp is⟩, writable⟩
  · have opened := read_eq_ok_iff_openToRead.mp (read_eq_ok_iff.mpr ⟨path, names, found⟩)
    exact no ⟨⟨_, opened⟩, path, names', node?_ne_directory found⟩

theorem not_spoils_of_ne {path other : FilePath} {content : List UInt8}
    (names : t.Names source other) (found : t.node? other = some (.file content))
    (names' : t.Names target path) (ne : other ≠ path) : ¬t.Spoils source target := by
  rintro ⟨⟨is, -⟩ | ⟨path', content', same, same', -⟩, -⟩
  · cases (read_of_isDirectory is).symm.trans (read_eq_ok_iff.mpr ⟨other, names, found⟩)
  · exact ne ((names.unique same).trans (same'.unique names'))

namespace CopyEnds

theorem done_iff (ends : CopyEnds t source target done t') :
    done = true ↔ (∃ content, t.read source = .ok content) ∧ t.IsWritable target := by
  cases ends with
  | refused no =>
    refine iff_of_false Bool.false_ne_true fun ⟨⟨content, read⟩, writable⟩ => ?_
    exact no ⟨⟨_, read_eq_ok_iff_openToRead.mp read⟩, writable⟩
  | unreadable is =>
    refine iff_of_false Bool.false_ne_true fun ⟨⟨content, read⟩, _⟩ => ?_
    cases (isDirectory_iff.mp is).symm.trans (read_eq_ok_iff_openToRead.mp read)
  | itself names names' found =>
    exact iff_of_true rfl
      ⟨⟨_, read_eq_ok_iff.mpr ⟨_, names, found⟩⟩, _, names', node?_ne_directory found⟩
  | copied names found names' free =>
    exact iff_of_true rfl ⟨⟨_, read_eq_ok_iff.mpr ⟨_, names, found⟩⟩, _, names', free⟩

/-- At most the target is changed. -/
theorem eq_or_stores (ends : CopyEnds t source target done t') :
    t' = t ∨ ∃ path content, t.Names target path ∧ t.Stores t' path content := by
  cases ends with
  | refused => exact .inl rfl
  | unreadable _ names _ stores => exact .inr ⟨_, _, names, stores⟩
  | itself _ names' _ stores => exact .inr ⟨_, _, names', stores⟩
  | copied _ _ names' _ _ stores => exact .inr ⟨_, _, names', stores⟩

/-- A copy does what it is for unless it spoils the target, which is empty then. -/
theorem copiesOrSpares_iff (ends : CopyEnds t source target done t') :
    (t.CopiesOrSpares t' source target done ↔ ¬t.Spoils source target) ∧
      (t.Spoils source target → t'.read target = .ok []) := by
  cases ends with
  | refused no =>
    have safe := not_spoils_of_refused no
    exact ⟨iff_of_true (fun _ => rfl) safe, fun spoils => absurd spoils safe⟩
  | @unreadable _ path is names free stores =>
    have lossy : t.Spoils source target ↔ t.read target ≠ .ok [] :=
      and_iff_right (.inl ⟨is, path, names, free⟩)
    refine ⟨?_, fun _ => stores.read_self names free⟩
    rw [lossy, Classical.not_not, names.read_eq_ok_iff]
    exact stores.forall_content?_eq_iff
  | @itself _ path content names names' found stores =>
    have free := node?_ne_directory found
    have lossy : t.Spoils source target ↔ t.read target ≠ .ok [] :=
      and_iff_right (.inr ⟨path, content, names, names', found⟩)
    have before (written : String) (names : t.Names written path) : t.read written = .ok content :=
      read_eq_ok_iff.mpr ⟨path, names, found⟩
    refine ⟨?_, fun _ => stores.read_self names' free⟩
    rw [lossy, Classical.not_not, before target names']
    constructor
    · rintro ⟨content', read, read', -⟩
      rw [before source names] at read
      rw [stores.read_self names' free] at read'
      rw [read, read']
    · rintro ⟨⟩
      exact ⟨[], before source names, stores.read_self names' free, stores.read_self names free⟩
  | @copied _ path other content names found names' free ne stores =>
    have safe := not_spoils_of_ne names found names' ne
    have read : t.read source = .ok content := read_eq_ok_iff.mpr ⟨other, names, found⟩
    have read' := stores.read_other free read fun names'' => ne (names.unique names'')
    exact ⟨iff_of_true ⟨content, read, stores.read_self names' free, read'⟩ safe,
      fun spoils => absurd spoils safe⟩

end CopyEnds

end FileTree

namespace Files

open FileTree

/-! ## One step -/

theorem perform_flagTextArg (v : Value) (operation label : String) (config : Config) (t : FileTree)
    (h : Heap) :
    AttemptOn.perform (liftM (flagTextArg v operation label) : FileAttempt String) config t h =
      ((match (h.payload v).text? with
        | some text => .ok text
        | none => .error ⟨(Fault.argument operation (label ++ " must be a string")).status,
            .bool false⟩, t), h) := by
  rw [AttemptOn.perform_lift, flagTextArg]
  cases is : (h.payload v).text? with
  | some text => rw [perform_require Payload.text? config is]
  | none => rw [perform_require_of_none config is]

/-- A question leaves the files as they are. -/
theorem perform_ask {α : Type} (step : FileTree → Except FileProblem α)
    (operation problem : String) (config : Config) (t : FileTree) (h : Heap) :
    (ask step operation problem (return .bool false)).perform config t h =
      ((match step t with
        | .ok a => .ok a
        | .error _ => .error ⟨(Fault.refused operation problem).status, .bool false⟩, t), h) := by
  have look : AttemptOn.perform (get : FileAttempt FileTree) config t h = ((.ok t, t), h) := rfl
  rw [ask, AttemptOn.bind_ok look]
  cases step t <;> rfl

theorem perform_change (step : FileTree → Except FileProblem FileTree) (operation problem : String)
    (config : Config) (t : FileTree) (h : Heap) :
    (change step operation problem).perform config t h =
      (match step t with
        | .ok t' => (.ok (), t')
        | .error _ => (.error ⟨(Fault.refused operation problem).status, .bool false⟩, t), h) := by
  have asked := perform_ask step operation problem config t h
  cases taken : step t with
  | ok t' =>
    rw [taken] at asked
    rw [change, AttemptOn.bind_ok asked]
    rfl
  | error =>
    rw [taken] at asked
    rw [change, AttemptOn.bind_error asked]

/-- A computation on the files ends with true, or with a failure that leaves false. The heap is as it
was. -/
inductive Answered (h : Heap) : (Except Failure Value × FileTree) × Heap → Bool → FileTree → Prop
  | succeeded (t : FileTree) : Answered h ((.ok (.bool true), t), h) true t
  | failed (fault : Fault) (t : FileTree) :
    Answered h ((.error ⟨fault.status, .bool false⟩, t), h) false t

/-- Copying takes its steps one after the other, until one of them is refused. -/
theorem exists_copyEnds {x y : Value} {source target : String} {h : Heap}
    (named : (h.payload x).text? = some source) (named' : (h.payload y).text? = some target)
    (config : Config) (t : FileTree) : ∃ done t',
      Answered h ((copyFile x y).perform config t h) done t' ∧
        t.CopyEnds source target done t' := by
  have first := perform_flagTextArg x "copyFile" "src" config t h
  have second := perform_flagTextArg y "copyFile" "dest" config t h
  rw [named] at first
  rw [named'] at second
  rw [copyFile, AttemptOn.bind_ok first, AttemptOn.bind_ok second]
  have opens := perform_ask (·.openToRead source) "copyFile" "cannot open source file" config t h
  cases opened : t.openToRead source with
  | error problem =>
    rw [opened] at opens
    rw [AttemptOn.bind_error opens]
    refine ⟨false, t, .failed _ t, .refused fun ⟨⟨node, ok⟩, _⟩ => ?_⟩
    cases opened.symm.trans ok
  | ok node =>
    rw [opened] at opens
    rw [AttemptOn.bind_ok opens]
    have empties := perform_change (·.write target []) "copyFile" "cannot create destination file"
      config t h
    by_cases writable : t.IsWritable target
    · obtain ⟨path, names, free⟩ := writable
      obtain ⟨t₁, emptied, stores⟩ := exists_write names free []
      rw [emptied] at empties
      rw [AttemptOn.bind_ok empties]
      have reads := perform_ask (·.read source) "copyFile" "failed to write to destination file"
        config t₁ h
      cases node with
      | directory =>
        -- a directory can be opened but not read, and by now the target is empty
        have is := isDirectory_iff.mpr opened
        rw [read_of_isDirectory ((stores.keepsDirectories free).isDirectory is)] at reads
        rw [AttemptOn.bind_error reads]
        exact ⟨false, t₁, .failed _ t₁, .unreadable is names free stores⟩
      | file content =>
        obtain ⟨content', t₂, read, filled, ends⟩ := exists_filled opened names free stores
        have fills := perform_change (·.write target content') "copyFile"
          "failed to write to destination file" config t₁ h
        rw [read] at reads
        rw [filled] at fills
        rw [AttemptOn.bind_ok reads, AttemptOn.bind_ok fills]
        exact ⟨true, t₂, .succeeded t₂, ends⟩
    · obtain ⟨problem, refused⟩ := write_eq_error writable []
      rw [refused] at empties
      rw [AttemptOn.bind_error empties]
      exact ⟨false, t, .failed _ t, .refused fun both => writable both.2⟩

/-- Other values than texts name no file. -/
theorem answered_copyFile_of_none {x y : Value} {h : Heap}
    (none : (h.payload x).text? = none ∨ (h.payload y).text? = none) (config : Config)
    (t : FileTree) : Answered h ((copyFile x y).perform config t h) false t := by
  have first := perform_flagTextArg x "copyFile" "src" config t h
  have second := perform_flagTextArg y "copyFile" "dest" config t h
  rw [copyFile]
  cases named : (h.payload x).text? with
  | none =>
    rw [named] at first
    rw [AttemptOn.bind_error first]
    exact .failed _ t
  | some source =>
    rw [named] at first
    rw [none.resolve_left (by rw [named]; exact nofun)] at second
    rw [AttemptOn.bind_ok first, AttemptOn.bind_error second]
    exact .failed _ t

/-- What the program sees of such a computation. -/
theorem Answered.run_settle {x : FileAttempt Value} {m : Machine} {done : Bool} {files : FileTree}
    (answered : Answered m.heap (x.perform m.config m.files m.heap) done files) :
    ∃ status, (settle x).run.run m = (.ok (.bool done), { m with files, status }) ∧
      done = status.isOk := by
  rw [settle_files_eq]
  generalize x.perform m.config m.files m.heap = outcome at answered
  cases answered with
  | succeeded => exact ⟨.ok, rfl, rfl⟩
  | failed fault => exact ⟨fault.status, rfl, (beq_eq_false_iff_ne.mpr fault.code_ne_ok).symm⟩

/-- Copying answers whether it has succeeded, and its status says the same. It succeeds if there is a
file to read and a path to write to, and it changes the target at most. Afterwards both paths lead to
what the source held, or, without success, every file is as it was. This holds except if the copy
spoils the target, which is left empty then. -/
theorem copies_or_spares (m : Machine) (x y : Value) : ∃ done files status,
    (settle (copyFile x y)).run.run m = (.ok (.bool done), { m with files, status }) ∧
      done = status.isOk ∧
      match (m.heap.payload x).text?, (m.heap.payload y).text? with
      | some source, some target =>
        (done = true ↔ (∃ content, m.files.read source = .ok content) ∧
          m.files.IsWritable target) ∧
        (files = m.files ∨
          ∃ path content, m.files.Names target path ∧ m.files.Stores files path content) ∧
        (m.files.CopiesOrSpares files source target done ↔ ¬m.files.Spoils source target) ∧
        (m.files.Spoils source target → files.read target = .ok [])
      | _, _ => done = false ∧ files = m.files := by
  cases named : (m.heap.payload x).text? with
  | none =>
    obtain ⟨status, run, reported⟩ := (answered_copyFile_of_none (.inl named) _ _).run_settle
    exact ⟨false, m.files, status, run, reported, rfl, rfl⟩
  | some source =>
    cases named' : (m.heap.payload y).text? with
    | none =>
      obtain ⟨status, run, reported⟩ := (answered_copyFile_of_none (.inr named') _ _).run_settle
      exact ⟨false, m.files, status, run, reported, rfl, rfl⟩
    | some target =>
      obtain ⟨done, files, answered, ends⟩ := exists_copyEnds named named' m.config m.files
      obtain ⟨status, run, reported⟩ := answered.run_settle
      exact ⟨done, files, status, run, reported, ends.done_iff, ends.eq_or_stores,
        ends.copiesOrSpares_iff⟩

/-- A machine with a file and a directory, and texts that lead there. -/
def desk : Machine :=
  { Machine.start ⟨"linux", "2024-01-01 00:00:00", 0, 0.5⟩ [] with
    heap := .ofCells #[.ofPayload (.text false "notes"), .ofPayload (.text false "drawer/../notes"),
      .ofPayload (.text false "drawer")]
    files := ⟨[(["notes"], .file [104, 105]), (["drawer"], .directory)]⟩ }

/-- A file that is copied to itself is lost, and the copy succeeds. A file to which a directory is
copied is lost, and the copy fails. -/
theorem copies_or_spares_lost :
    desk.heap.payload (.cell 0) = .text false "notes" ∧
      desk.heap.payload (.cell 1) = .text false "drawer/../notes" ∧
      desk.heap.payload (.cell 2) = .text false "drawer" ∧
      (∃ files, (settle (copyFile (.cell 0) (.cell 1))).run.run desk =
          (.ok (.bool true), { desk with files, status := .ok }) ∧
        ¬desk.files.CopiesOrSpares files "notes" "drawer/../notes" true) ∧
      ∃ files status, (settle (copyFile (.cell 2) (.cell 0))).run.run desk =
          (.ok (.bool false), { desk with files, status }) ∧
        ¬desk.files.CopiesOrSpares files "drawer" "notes" false := by
  let lost : FileTree := ⟨[(["notes"], .file []), (["drawer"], .directory)]⟩
  refine ⟨rfl, rfl, rfl, ⟨lost, rfl, ?_⟩, lost, _, rfl, fun same => ?_⟩
  · rintro ⟨content, before, after, -⟩
    have held : desk.files.read "notes" = .ok [104, 105] := rfl
    have holds : lost.read "drawer/../notes" = .ok [] := rfl
    rw [held] at before
    rw [holds, ← before] at after
    exact absurd (Except.ok.inj after) (by decide)
  · exact absurd (same ["notes"]) (by decide)

end Files

end ValueMachine
