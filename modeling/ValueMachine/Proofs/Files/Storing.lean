import ValueMachine.FileTree

/-!
# Storing files

A file is stored at one path, and every other path leads to what it led to. A written path is
resolved through directories, so it goes on leading to the same place as long as no directory is
lost.

Results:
* `read_eq_ok_iff`, `openToWrite_eq_ok_iff`: when a file can be read, and when it can be written;
* `KeepsDirectories.resolve`: a tree that has all directories of another one resolves paths alike;
* `exists_write`: writing a file stores it at its path;
* `Stores.read_self`, `Stores.read_other`: what is read afterwards, at this path and at others.
-/

namespace ValueMachine

namespace FileProblem

variable {α β : Type}

theorem bind_eq_ok_iff {x : Except FileProblem α} {f : α → Except FileProblem β} {b : β} :
    (x >>= f) = .ok b ↔ ∃ a, x = .ok a ∧ f a = .ok b := by
  cases x with
  | error problem => exact ⟨nofun, nofun⟩
  | ok a =>
    refine ⟨fun ok => ⟨a, rfl, ok⟩, ?_⟩
    rintro ⟨_, ⟨⟩, ok⟩
    exact ok

/-- Wherever the first computation succeeds, the second one succeeds with the same result. -/
def Spares (x y : Except FileProblem α) : Prop := ∀ a, x = .ok a → y = .ok a

theorem spares_refl (x : Except FileProblem α) : Spares x x := fun _ => id

theorem spares_error (problem : FileProblem) (y : Except FileProblem α) :
    Spares (.error problem) y := fun _ => nofun

theorem Spares.bind {x y : Except FileProblem α} {f g : α → Except FileProblem β}
    (first : Spares x y) (next : ∀ a, Spares (f a) (g a)) : Spares (x >>= f) (y >>= g) := by
  intro b ok
  obtain ⟨a, ok₁, ok₂⟩ := bind_eq_ok_iff.mp ok
  exact bind_eq_ok_iff.mpr ⟨a, first a ok₁, next a b ok₂⟩

end FileProblem

namespace FileTree

open FileProblem

variable {t t' t'' : FileTree} {written : String} {path other : FilePath}
  {content old : List UInt8} {node : FileNode}

/-- The content of the file at a path. -/
def content? (t : FileTree) (path : FilePath) : Option (List UInt8) :=
  match t.node? path with
  | some (.file content) => some content
  | _ => none

theorem content?_eq_some_iff :
    t.content? path = some content ↔ t.node? path = some (.file content) := by
  rw [content?]
  split
  · next found => simp [found]
  · next other => exact ⟨nofun, fun found => absurd found (other content)⟩

theorem node?_ne_directory (found : t.node? path = some (.file content)) :
    t.node? path ≠ some .directory := by
  rw [found]
  exact nofun

/-! ## What a written path leads to -/

/-- A written path gives a path at which a file can be: it leads to a name, and does not end in a
slash. There may be nothing there yet, or a directory. -/
def Names (t : FileTree) (written : String) (path : FilePath) : Prop :=
  ∃ directory name, t.resolve written = .ok (.entry directory name false) ∧
    path = directory ++ [name]

theorem Names.unique (names : t.Names written path) (names' : t.Names written other) :
    path = other := by
  obtain ⟨directory, name, ok, rfl⟩ := names
  obtain ⟨_, _, ok', rfl⟩ := names'
  cases ok.symm.trans ok'
  rfl

theorem Names.ne_nil (names : t.Names written path) : path ≠ [] := by
  obtain ⟨directory, name, -, rfl⟩ := names
  exact List.append_ne_nil_of_right_ne_nil directory (List.cons_ne_nil name [])

/-- What is found is a directory, or a file at the path that is given. -/
theorem locate_eq_ok_iff {place : Place} : t.locate written = .ok (place, node) ↔
    (∃ ending, t.resolve written = .ok (.directory place ending) ∧ node = .directory) ∨
      ∃ directory name slashed, t.resolve written = .ok (.entry directory name slashed) ∧
        place = .inside (directory ++ [name]) ∧ t.node? (directory ++ [name]) = some node ∧
        (node = .directory ∨ slashed = false) := by
  rw [locate, bind_eq_ok_iff]
  constructor
  · rintro ⟨target, ok, located⟩
    cases target with
    | directory place ending =>
      cases located
      exact .inl ⟨ending, ok, rfl⟩
    | entry directory name slashed =>
      dsimp only at located
      split at located
      · cases located
      · next found =>
        cases slashed <;> cases located
        exact .inr ⟨directory, name, false, ok, rfl, found, .inr rfl⟩
      · next found =>
        cases located
        exact .inr ⟨directory, name, slashed, ok, rfl, found, .inl rfl⟩
  · rintro (⟨ending, ok, rfl⟩ | ⟨directory, name, slashed, ok, rfl, found, file⟩)
    · exact ⟨_, ok, rfl⟩
    · refine ⟨_, ok, ?_⟩
      dsimp only
      rw [found]
      rcases file with rfl | rfl
      · rfl
      · cases node <;> rfl

theorem openToRead_eq_ok_iff :
    t.openToRead written = .ok node ↔ ∃ place, t.locate written = .ok (place, node) := by
  rw [openToRead]
  cases t.locate written with
  | error problem => exact ⟨nofun, nofun⟩
  | ok found =>
    obtain ⟨place, node'⟩ := found
    exact ⟨fun ok => ⟨place, by cases ok; rfl⟩, fun ⟨_, ok⟩ => by cases ok; rfl⟩

theorem isDirectory_iff : t.isDirectory written ↔ t.openToRead written = .ok .directory := by
  rw [openToRead_eq_ok_iff, isDirectory]
  split
  · next place found => exact iff_of_true rfl ⟨place, found⟩
  · next other => exact iff_of_false Bool.false_ne_true fun ⟨place, found⟩ => other place found

theorem read_eq_ok_iff_openToRead :
    t.read written = .ok content ↔ t.openToRead written = .ok (.file content) := by
  rw [read, bind_eq_ok_iff]
  constructor
  · rintro ⟨node, ok, holds⟩
    cases node <;> cases holds
    exact ok
  · exact fun ok => ⟨_, ok, rfl⟩

theorem read_of_isDirectory (is : t.isDirectory written) :
    t.read written = .error .isDirectory := by
  rw [read, isDirectory_iff.mp is]
  rfl

theorem read_eq_ok_iff : t.read written = .ok content ↔
    ∃ path, t.Names written path ∧ t.node? path = some (.file content) := by
  simp only [read_eq_ok_iff_openToRead, openToRead_eq_ok_iff, locate_eq_ok_iff]
  constructor
  · rintro ⟨place, ⟨ending, -, ⟨⟩⟩ | ⟨directory, name, slashed, ok, rfl, found, file⟩⟩
    obtain rfl : slashed = false := file.resolve_left nofun
    exact ⟨_, ⟨directory, name, ok, rfl⟩, found⟩
  · rintro ⟨_, ⟨directory, name, ok, rfl⟩, found⟩
    exact ⟨_, .inr ⟨directory, name, false, ok, rfl, found, .inr rfl⟩⟩

theorem Names.read_eq_ok_iff (names : t.Names written path) :
    t.read written = .ok content ↔ t.content? path = some content := by
  rw [FileTree.read_eq_ok_iff, content?_eq_some_iff]
  constructor
  · rintro ⟨other, names', found⟩
    rwa [names.unique names']
  · exact fun found => ⟨path, names, found⟩

theorem openToWrite_eq_ok_iff : t.openToWrite written = .ok (path, old) ↔
    t.Names written path ∧
      (t.node? path = none ∧ old = [] ∨ t.node? path = some (.file old)) := by
  rw [openToWrite, bind_eq_ok_iff]
  constructor
  · rintro ⟨target, ok, opened⟩
    cases target with
    | directory place ending => cases opened
    | entry directory name slashed =>
      dsimp only at opened
      split at opened
      · cases opened
      · next found =>
        cases slashed <;> cases opened
        exact ⟨⟨directory, name, ok, rfl⟩, .inr found⟩
      · next found =>
        cases slashed <;> cases opened
        exact ⟨⟨directory, name, ok, rfl⟩, .inl ⟨found, rfl⟩⟩
  · rintro ⟨⟨directory, name, ok, rfl⟩, free⟩
    refine ⟨_, ok, ?_⟩
    dsimp only
    rcases free with ⟨found, rfl⟩ | found <;> rw [found] <;> rfl

/-- A file can be made or overwritten at the path that is given: there is no directory. -/
def IsWritable (t : FileTree) (written : String) : Prop :=
  ∃ path, t.Names written path ∧ t.node? path ≠ some .directory

theorem isWritable_iff :
    t.IsWritable written ↔ ∃ path old, t.openToWrite written = .ok (path, old) := by
  simp only [openToWrite_eq_ok_iff]
  constructor
  · rintro ⟨path, names, free⟩
    match found : t.node? path with
    | none => exact ⟨path, [], names, .inl ⟨found, rfl⟩⟩
    | some (.file old) => exact ⟨path, old, names, .inr found⟩
    | some .directory => exact absurd found free
  · rintro ⟨path, old, names, free⟩
    refine ⟨path, names, fun found => ?_⟩
    rw [found] at free
    simp at free

/-! ## Directories that stay -/

/-- Every directory of one tree is one of the other. -/
def KeepsDirectories (t t' : FileTree) : Prop :=
  ∀ path, t.node? path = some .directory → t'.node? path = some .directory

namespace KeepsDirectories

theorem step (keeps : t.KeepsDirectories t') (place : Place) (name : String) :
    Spares (t.step place name) (t'.step place name) := by
  unfold FileTree.step
  split
  · exact spares_refl _
  split
  · exact spares_refl _
  split
  · exact spares_refl _
  cases place with
  | outside => exact spares_refl _
  | inside path =>
    dsimp only
    split
    · next found =>
      rw [keeps _ found]
      exact spares_refl _
    · exact spares_error _ _
    · exact spares_error _ _

theorem foldlM_step (keeps : t.KeepsDirectories t') (names : List String) (place : Place) :
    Spares (names.foldlM t.step place) (names.foldlM t'.step place) := by
  induction names generalizing place with
  | nil => exact spares_refl _
  | cons name names ih =>
    rw [List.foldlM_cons, List.foldlM_cons]
    exact (keeps.step place name).bind ih

theorem resolve (keeps : t.KeepsDirectories t') (written : String) :
    Spares (t.resolve written) (t'.resolve written) := by
  unfold FileTree.resolve
  dsimp only
  split
  · exact spares_refl _
  split
  · exact spares_refl _
  split
  · exact spares_refl _
  -- only the steps to the last directory look at the tree
  · exact (keeps.foldlM_step _ _).bind fun _ => spares_refl _

theorem names (keeps : t.KeepsDirectories t') (names : t.Names written path) :
    t'.Names written path := by
  obtain ⟨directory, name, ok, eq⟩ := names
  exact ⟨directory, name, keeps.resolve written _ ok, eq⟩

theorem isDirectory (keeps : t.KeepsDirectories t') (is : t.isDirectory written) :
    t'.isDirectory written := by
  obtain ⟨place, located⟩ := openToRead_eq_ok_iff.mp (isDirectory_iff.mp is)
  refine isDirectory_iff.mpr (openToRead_eq_ok_iff.mpr ⟨place, locate_eq_ok_iff.mpr ?_⟩)
  obtain ⟨ending, ok, eq⟩ | ⟨directory, name, slashed, ok, eq, found, node⟩ :=
    locate_eq_ok_iff.mp located
  · exact .inl ⟨ending, keeps.resolve written _ ok, eq⟩
  · exact .inr ⟨directory, name, slashed, keeps.resolve written _ ok, eq, keeps _ found, node⟩

end KeepsDirectories

/-! ## Storing -/

theorem lookup_replaced (nodes : List (FilePath × FileNode)) (path other : FilePath)
    (node : FileNode) :
    (nodes.map fun (key, old) => (key, if key = path then node else old)).lookup other =
      (nodes.lookup other).map fun old => if other = path then node else old := by
  induction nodes with
  | nil => rfl
  | cons entry nodes ih =>
    rw [List.map_cons, List.lookup_cons, List.lookup_cons, ih]
    split
    · next same =>
      rw [eq_of_beq same]
      rfl
    · rfl

theorem lookup_put (t : FileTree) (path other : FilePath) (node : FileNode) :
    (t.put path node).nodes.lookup other =
      if other = path then some node else t.nodes.lookup other := by
  rw [put]
  split
  · next present =>
    rw [lookup_replaced]
    split
    · next same =>
      obtain ⟨old, found⟩ := Option.isSome_iff_exists.mp present
      rw [same, found]
      rfl
    · exact Option.map_id' ..
  · next absent =>
    rw [List.lookup_append, List.lookup_cons]
    split
    · next same =>
      rw [eq_of_beq same, Option.not_isSome_iff_eq_none.mp absent, if_pos rfl]
      rfl
    · next differs =>
      rw [if_neg (ne_of_beq_false differs)]
      exact Option.or_none

/-- A file with the given content stands at a path, and everything else is as it was. -/
structure Stores (t t' : FileTree) (path : FilePath) (content : List UInt8) : Prop where
  stored : t'.node? path = some (.file content)
  others : ∀ other, other ≠ path → t'.node? other = t.node? other

theorem stores_put (t : FileTree) (ne : path ≠ []) (content : List UInt8) :
    t.Stores (t.put path (.file content)) path content where
  stored := by rw [node?, if_neg (mt List.isEmpty_iff.mp ne), lookup_put, if_pos rfl]
  others other differs := by
    rw [node?, node?, lookup_put, if_neg differs]

/-- Writing stores a file. -/
theorem exists_write (names : t.Names written path) (free : t.node? path ≠ some .directory)
    (content : List UInt8) :
    ∃ t', t.write written content = .ok t' ∧ t.Stores t' path content := by
  obtain ⟨path', old, opened⟩ := isWritable_iff.mp ⟨path, names, free⟩
  obtain rfl := names.unique (openToWrite_eq_ok_iff.mp opened).1
  exact ⟨_, bind_eq_ok_iff.mpr ⟨_, opened, rfl⟩, stores_put t names.ne_nil content⟩

/-- Nothing is written where no file can be. -/
theorem write_eq_error (no : ¬t.IsWritable written) (content : List UInt8) :
    ∃ problem, t.write written content = .error problem := by
  rw [write]
  cases opened : t.openToWrite written with
  | error problem => exact ⟨problem, rfl⟩
  | ok found => exact absurd (isWritable_iff.mpr ⟨found.1, found.2, opened⟩) no

namespace Stores

theorem trans (stores : t.Stores t' path old) (stores' : t'.Stores t'' path content) :
    t.Stores t'' path content :=
  ⟨stores'.stored, fun other differs =>
    (stores'.others other differs).trans (stores.others other differs)⟩

theorem keepsDirectories (stores : t.Stores t' path content)
    (free : t.node? path ≠ some .directory) : t.KeepsDirectories t' := by
  intro other found
  have differs : other ≠ path := by
    rintro rfl
    exact free found
  rw [stores.others other differs, found]

/-- Every file is as it was only if the same was stored before. -/
theorem forall_content?_eq_iff (stores : t.Stores t' path content) :
    (∀ other, t'.content? other = t.content? other) ↔ t.content? path = some content := by
  have stored : t'.content? path = some content := content?_eq_some_iff.mpr stores.stored
  constructor
  · intro same
    rw [← same path, stored]
  · intro found other
    by_cases eq : other = path
    · rw [eq, stored, found]
    · rw [content?, stores.others other eq, content?]

/-- What has been stored is read. -/
theorem read_self (stores : t.Stores t' path content) (names : t.Names written path)
    (free : t.node? path ≠ some .directory) : t'.read written = .ok content :=
  read_eq_ok_iff.mpr ⟨path, (stores.keepsDirectories free).names names, stores.stored⟩

/-- Files at other paths are read as before. -/
theorem read_other (stores : t.Stores t' path content) (free : t.node? path ≠ some .directory)
    (read : t.read written = .ok old) (differs : ¬t.Names written path) :
    t'.read written = .ok old := by
  obtain ⟨other, names, found⟩ := read_eq_ok_iff.mp read
  have ne : other ≠ path := by
    rintro rfl
    exact differs names
  exact read_eq_ok_iff.mpr
    ⟨other, (stores.keepsDirectories free).names names, (stores.others other ne).trans found⟩

end Stores

end FileTree

end ValueMachine
