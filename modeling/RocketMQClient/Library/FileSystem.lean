import Mathlib.Data.List.Basic
import Mathlib.Logic.Function.Basic

/-!
# Files behind names

A file system as the programs of one machine see it: names lead to files, and a file that a program
has open stays the file it is when its name goes to another file. No two names lead to one file, and
files that have not been used yet are known; both are fields of `FileSystem`. `create` opens a file
for writing and empties it, `setFile` overwrites a file that is open, `rename` takes the name of a
file in one step, and `copy` writes a part of one file to another.

`read` is what a program that opens a name reads. The lemmas say what an operation leaves of it
under the name it is about and under all others.
-/

set_option autoImplicit false
set_option relaxedAutoImplicit false

namespace RocketMQClient.Library

/-- Names of files, the contents of files, and the first file that has not been used. -/
structure FileSystem (Path Byte : Type*) where
  names : Path → Option ℕ
  files : ℕ → List Byte
  used : ℕ
  names_lt : ∀ path file, names path = some file → file < used
  names_unique : ∀ path other file, names path = some file → names other = some file →
    path = other

/-- The content of a file after some bytes have been written at a position; what is skipped is
filled up with the byte `zero`. -/
def writeAt {Byte : Type*} (zero : Byte) (content : List Byte) (position : ℕ) (bytes : List Byte) :
    List Byte :=
  content.take position ++ List.replicate (position - content.length) zero ++ bytes ++
    content.drop (position + bytes.length)

theorem writeAt_length {Byte : Type*} (zero : Byte) (content bytes : List Byte) :
    writeAt zero content content.length bytes = content ++ bytes := by
  simp [writeAt]

namespace FileSystem

variable {Path Byte : Type*}

/-- No file has a name. -/
def empty : FileSystem Path Byte where
  names _ := none
  files _ := []
  used := 0
  names_lt _ _ hfile := absurd hfile (Option.some_ne_none _).symm
  names_unique _ _ _ hfile := absurd hfile (Option.some_ne_none _).symm

/-- What a program reads that opens a name. -/
def read (system : FileSystem Path Byte) (path : Path) : Option (List Byte) :=
  (system.names path).map system.files

/-- A file that is open is overwritten. -/
def setFile (system : FileSystem Path Byte) (file : ℕ) (content : List Byte) :
    FileSystem Path Byte :=
  { system with files := Function.update system.files file content }

/-- The file that is opened under a name, a new one when there is none. -/
def openFile (system : FileSystem Path Byte) (path : Path) : ℕ :=
  (system.names path).getD system.used

section Writing

variable {system : FileSystem Path Byte} {path : Path} {file : ℕ} {content : List Byte}

theorem read_setFile_of_ne (hfile : system.names path ≠ some file) :
    (system.setFile file content).read path = system.read path := by
  rw [read, read]
  change (system.names path).map _ = _
  cases hpath : system.names path with
  | none => rfl
  | some other =>
    refine congrArg some (Function.update_of_ne ?_ _ _)
    rintro rfl
    exact hfile hpath

theorem files_setFile_self : (system.setFile file content).files file = content :=
  Function.update_self _ _ _

end Writing

variable [DecidableEq Path]

/-- A file is opened for writing, and emptied. -/
def create (system : FileSystem Path Byte) (path : Path) : FileSystem Path Byte where
  names := Function.update system.names path (some (system.openFile path))
  files := Function.update system.files (system.openFile path) []
  used := max system.used (system.openFile path + 1)
  names_lt := by
    intro other file hfile
    by_cases hsame : other = path
    · subst hsame
      rw [Function.update_self] at hfile
      obtain rfl := Option.some.inj hfile
      exact Nat.lt_of_lt_of_le (Nat.lt_succ_self _) (Nat.le_max_right _ _)
    · rw [Function.update_of_ne hsame] at hfile
      exact Nat.lt_of_lt_of_le (system.names_lt other file hfile) (Nat.le_max_left _ _)
  names_unique := by
    have hnew : ∀ other, other ≠ path → system.names other ≠ some (system.openFile path) := by
      intro other hother hfile
      cases hpath : system.names path with
      | none =>
        rw [openFile, hpath, Option.getD_none] at hfile
        exact Nat.lt_irrefl _ (system.names_lt other _ hfile)
      | some file =>
        rw [openFile, hpath, Option.getD_some] at hfile
        exact hother (system.names_unique other path file hfile hpath)
    intro first second file hfirst hsecond
    by_cases hone : first = path <;> by_cases htwo : second = path
    · exact hone.trans htwo.symm
    · subst hone
      rw [Function.update_self] at hfirst
      rw [Function.update_of_ne htwo, ← hfirst] at hsecond
      exact absurd hsecond (hnew second htwo)
    · subst htwo
      rw [Function.update_self] at hsecond
      rw [Function.update_of_ne hone, ← hsecond] at hfirst
      exact absurd hfirst (hnew first hone)
    · rw [Function.update_of_ne hone] at hfirst
      rw [Function.update_of_ne htwo] at hsecond
      exact system.names_unique first second file hfirst hsecond

/-- A part of one file is copied into another, when there is a file to copy. -/
def copy (system : FileSystem Path Byte) (source target : Path) (count : ℕ) :
    FileSystem Path Byte :=
  match system.read source with
  | none => system
  | some content =>
    (system.create target).setFile (system.openFile target) (content.take count)

/-- A name goes to the file of another name, which is a name no more. -/
def move (system : FileSystem Path Byte) (source target : Path) : FileSystem Path Byte where
  names path :=
    if path = target then system.names source
    else if path = source then none
    else system.names path
  files := system.files
  used := system.used
  names_lt := by
    intro path file hfile
    split_ifs at hfile
    · exact system.names_lt source file hfile
    · exact system.names_lt path file hfile
  names_unique := by
    intro first second file hfirst hsecond
    split_ifs at hfirst hsecond with hone htwo hother hsource htwo hother
    · exact hone.trans htwo.symm
    · exact absurd (system.names_unique second source file hsecond hfirst) hother
    · exact absurd (system.names_unique first source file hfirst hsecond) hsource
    · exact system.names_unique first second file hfirst hsecond

/-- A name is moved, when there is a file behind it. -/
def rename (system : FileSystem Path Byte) (source target : Path) : FileSystem Path Byte :=
  if (system.names source).isSome then system.move source target else system

variable {system : FileSystem Path Byte} {path other source target : Path} {file : ℕ}

/-! ### Opening, copying and renaming -/

theorem names_create_self : (system.create path).names path = some (system.openFile path) :=
  Function.update_self path _ _

theorem names_create_of_ne (hother : other ≠ path) :
    (system.create path).names other = system.names other :=
  Function.update_of_ne hother _ _

/-- A file under another name is not the one that is opened. -/
theorem ne_openFile (hother : other ≠ path) (hfile : system.names other = some file) :
    file ≠ system.openFile path := by
  rintro rfl
  have hnames := (names_create_of_ne hother).trans hfile
  exact hother ((system.create path).names_unique other path _ hnames names_create_self)

theorem files_create_self : (system.create path).files (system.openFile path) = [] :=
  Function.update_self _ _ _

theorem read_create_of_ne (hother : other ≠ path) :
    (system.create path).read other = system.read other := by
  rw [read, names_create_of_ne hother, read]
  cases hfile : system.names other with
  | none => rfl
  | some file => exact congrArg some (Function.update_of_ne (ne_openFile hother hfile) _ _)

theorem read_copy_of_ne {count : ℕ} (hother : other ≠ target) :
    (system.copy source target count).read other = system.read other := by
  unfold copy
  split
  · rfl
  · rw [read_setFile_of_ne, read_create_of_ne hother]
    intro hfile
    exact hother ((system.create target).names_unique other target _ hfile names_create_self)

theorem names_copy_of_ne {count : ℕ} (hother : other ≠ target) :
    (system.copy source target count).names other = system.names other := by
  unfold copy
  split
  · rfl
  · exact names_create_of_ne hother

/-- A copy leaves the contents of the files under other names. -/
theorem files_copy_of_ne {count : ℕ} (hother : other ≠ target)
    (hfile : system.names other = some file) :
    (system.copy source target count).files file = system.files file := by
  have hread := @read_copy_of_ne _ _ _ system other source target count hother
  rw [read, read, names_copy_of_ne hother, hfile] at hread
  exact Option.some.inj hread

theorem read_rename_target (hfile : system.names source = some file) :
    (system.rename source target).read target = some (system.files file) := by
  simp [rename, move, read, hfile]

end FileSystem

end RocketMQClient.Library
