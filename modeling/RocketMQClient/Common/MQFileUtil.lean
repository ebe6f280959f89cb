import Mathlib.Data.Fin.VecNotation
import Mathlib.Data.Fintype.Basic
import RocketMQClient.Library.ByteString
import RocketMQClient.Library.EventSystem
import RocketMQClient.Library.FileSystem

/-!
# Writing a file safely

`SafeWriteFile` copies the file to a backup, writes the new content to a temporary file in the same
directory, and moves that file to the name of the first. `safeWriteSystem` interleaves any number of
calls for one file, by threads and processes that may crash at any step; the environment decides how
much of the backup is copied, in which pieces the content is written, whether all of it is written,
and whether a call of the operating system fails. The result of `fwrite` and of `mv` is ignored.

Seen through its name, the file is a cell that each successful `mv` overwrites at once
(`safe_write_atomic`), in every run in which no call opens the temporary file while another call has
it open or is about to move it, and `fwrite` writes all of its bytes. `overlapping_calls_tear` is a
run of two calls at once after which the file holds the content of neither.

An open file is written through its handle, wherever its name has gone meanwhile, and this is what
makes overlapping calls tear. `Whole` says for the runs in question that one call at most has the
temporary file in use, and what it has written there; what the backup holds does not enter.
-/

set_option autoImplicit false
set_option relaxedAutoImplicit false

namespace RocketMQClient.Common

open Library

/-! ### Paths -/

namespace MQFileUtil

/-- `PATH_SEPARATOR`. -/
def separator : Byte := 47

/-- `rfind` of the separator. -/
def rfindSeparator (text : ByteString) : Option ℕ :=
  match text.reverse.dropWhile fun byte ↦ byte ≠ separator with
  | [] => none
  | _ :: before => some before.length

/-- `GetDirPathSegment`. -/
def getDirPathSegment (url : ByteString) : ByteString :=
  match rfindSeparator url with
  | none => url
  | some pos => url.take (pos + 1)

/-- `GetFileNameSegment`. -/
def getFileNameSegment (url : ByteString) : ByteString :=
  match rfindSeparator url with
  | none => url
  | some pos => url.drop (pos + 1)

/-- `CombinePath`. -/
def combinePath (dirPath filename fileSuffix : ByteString) : ByteString :=
  (match rfindSeparator dirPath with
    | none => dirPath
    | some pos => dirPath.take pos) ++ [separator] ++ filename ++ fileSuffix

theorem rfindSeparator_append {before after : ByteString} (hafter : separator ∉ after) :
    rfindSeparator (before ++ separator :: after) = some before.length := by
  have hreverse : (before ++ separator :: after).reverse =
      after.reverse ++ separator :: before.reverse := by simp
  have hdrop : (after.reverse ++ separator :: before.reverse).dropWhile
      (fun byte ↦ decide (byte ≠ separator)) = separator :: before.reverse := by
    rw [List.dropWhile_append_of_pos]
    · exact List.dropWhile_cons_of_neg (by simp)
    · intro byte hbyte
      refine decide_eq_true fun hsame ↦ hafter ?_
      rw [← hsame]
      exact List.mem_reverse.mp hbyte
  rw [rfindSeparator, hreverse, hdrop]
  exact congrArg some List.length_reverse

/-- A path with a separator, cut at the last one. -/
theorem exists_lastSeparator {url : ByteString} (hmem : separator ∈ url) :
    ∃ before after, url = before ++ separator :: after ∧ separator ∉ after := by
  obtain ⟨after, before, hurl, hafter⟩ :=
    List.eq_append_cons_of_mem (List.mem_reverse.mpr hmem)
  refine ⟨before.reverse, after.reverse, ?_, fun hback ↦ hafter (List.mem_reverse.mp hback)⟩
  rw [← List.reverse_reverse url, hurl]
  simp

/-- In the directory of a path, the name of its file with a suffix is the path with the suffix. -/
theorem combinePath_segments {url : ByteString} (hmem : separator ∈ url) (fileSuffix : ByteString) :
    combinePath (getDirPathSegment url) (getFileNameSegment url) fileSuffix =
      url ++ fileSuffix := by
  obtain ⟨before, after, rfl, hafter⟩ := exists_lastSeparator hmem
  have hdir : getDirPathSegment (before ++ separator :: after) = before ++ [separator] := by
    rw [getDirPathSegment, rfindSeparator_append hafter]
    simp [List.take_append, List.take_of_length_le]
  have hname : getFileNameSegment (before ++ separator :: after) = after := by
    rw [getFileNameSegment, rfindSeparator_append hafter]
    simp
  rw [combinePath, hdir, hname, rfindSeparator_append List.not_mem_nil]
  simp

end MQFileUtil

open MQFileUtil

/-- The arguments of the calls for one file: an absolute or relative path with a directory, and the
suffixes of the backup and of the temporary file. -/
structure SafeFile where
  filepath : ByteString
  bakFileSuffix : ByteString
  tmpFileSuffix : ByteString
  separator_mem : separator ∈ filepath
  filepath_zero : 0 ∉ filepath
  suffixes_zero : 0 ∉ bakFileSuffix ++ tmpFileSuffix
  suffixes_ne : bakFileSuffix ≠ [] ∧ tmpFileSuffix ≠ [] ∧ bakFileSuffix ≠ tmpFileSuffix

namespace SafeFile

/-- A file with the suffixes that are the default. -/
def ofPath (filepath : ByteString) (hseparator : separator ∈ filepath) (hzero : 0 ∉ filepath) :
    SafeFile :=
  ⟨filepath, ofString ".bak", ofString ".tmp", hseparator, hzero, by decide, by decide⟩

/-- The file as the operating system sees its name. -/
def filename (file : SafeFile) : ByteString := cString file.filepath

def bakFilepath (file : SafeFile) : ByteString :=
  cString (combinePath (getDirPathSegment file.filepath) (getFileNameSegment file.filepath)
    file.bakFileSuffix)

def tmpFilepath (file : SafeFile) : ByteString :=
  cString (combinePath (getDirPathSegment file.filepath) (getFileNameSegment file.filepath)
    file.tmpFileSuffix)

variable (file : SafeFile)

theorem filename_eq : file.filename = file.filepath := cString_eq_self file.filepath_zero

theorem bakFilepath_eq : file.bakFilepath = file.filepath ++ file.bakFileSuffix := by
  rw [bakFilepath, combinePath_segments file.separator_mem, cString_eq_self]
  exact fun hzero ↦ (List.mem_append.mp hzero).elim file.filepath_zero
    fun hsuffix ↦ file.suffixes_zero (List.mem_append_left _ hsuffix)

theorem tmpFilepath_eq : file.tmpFilepath = file.filepath ++ file.tmpFileSuffix := by
  rw [tmpFilepath, combinePath_segments file.separator_mem, cString_eq_self]
  exact fun hzero ↦ (List.mem_append.mp hzero).elim file.filepath_zero
    fun hsuffix ↦ file.suffixes_zero (List.mem_append_right _ hsuffix)

theorem filename_ne_tmpFilepath : file.filename ≠ file.tmpFilepath := by
  rw [filename_eq, tmpFilepath_eq]
  exact fun hsame ↦ file.suffixes_ne.2.1 (List.self_eq_append_right.mp hsame)

theorem filename_ne_bakFilepath : file.filename ≠ file.bakFilepath := by
  rw [filename_eq, bakFilepath_eq]
  exact fun hsame ↦ file.suffixes_ne.1 (List.self_eq_append_right.mp hsame)

theorem tmpFilepath_ne_bakFilepath : file.tmpFilepath ≠ file.bakFilepath := by
  rw [tmpFilepath_eq, bakFilepath_eq]
  exact fun hsame ↦ file.suffixes_ne.2.2 (List.append_cancel_left hsame).symm

end SafeFile

/-! ### The calls -/

/-- What a call of `SafeWriteFile` does next. -/
inductive SafeWritePlace where
  | uncalled
  /-- The directory exists. -/
  | backup
  /-- `fopen` of the temporary file. -/
  | openTmp
  /-- Inside `fwrite`, with the file that is open and the number of bytes written. -/
  | write (file position : ℕ)
  /-- The temporary file is closed, before `mv`. -/
  | rename
  | returned (result : Bool)
  /-- The process has ended in the middle of the call. -/
  | crashed
  deriving DecidableEq

namespace SafeWritePlace

/-- The call has opened the temporary file and not moved it yet. -/
def usesTmp : SafeWritePlace → Bool
  | write _ _ | rename => true
  | uncalled | backup | openTmp | returned _ | crashed => false

/-- The number of bytes written, inside `fwrite`. -/
def written : SafeWritePlace → Option ℕ
  | write _ position => some position
  | uncalled | backup | openTmp | rename | returned _ | crashed => none

/-- The call can go on. -/
def active : SafeWritePlace → Bool
  | backup | openTmp | write _ _ | rename => true
  | uncalled | returned _ | crashed => false

end SafeWritePlace

/-- The disk, the calls, and those that have moved their temporary file, in this order. -/
structure SafeWriteState (Writer : Type*) where
  disk : FileSystem ByteString Byte
  calls : Writer → SafeWritePlace
  renamed : List Writer

/-- The steps of the calls, with what the operating system answers. -/
inductive SafeWriteEvent (Writer : Type*) where
  /-- A call that finds or makes its directory, or fails to. -/
  | call (writer : Writer) (dirExists : Bool)
  /-- The next step of a call: it succeeds or not, with a number of bytes that are copied or
  written. -/
  | proceed (writer : Writer) (succeeds : Bool) (count : ℕ)
  | crash (writer : Writer)

namespace SafeWriteState

variable {Writer : Type*} [DecidableEq Writer]

/-- A call goes on. -/
def goTo (state : SafeWriteState Writer) (writer : Writer) (place : SafeWritePlace) :
    SafeWriteState Writer :=
  { state with calls := Function.update state.calls writer place }

/-- The next bytes of the content go to the file that is open. -/
def writeChunk (state : SafeWriteState Writer) (content : ByteString) (writer : Writer)
    (file position count : ℕ) : SafeWriteState Writer :=
  let chunk := (content.drop position).take count
  { state.goTo writer (.write file (position + chunk.length)) with
    disk := state.disk.setFile file (writeAt 0 (state.disk.files file) position chunk) }

/-- `mv` of the temporary file, which fails when there is none. -/
def moveTmp (file : SafeFile) (state : SafeWriteState Writer) (writer : Writer) :
    SafeWriteState Writer :=
  { state.goTo writer (.returned true) with
    disk := state.disk.rename file.tmpFilepath file.filename
    renamed := if (state.disk.names file.tmpFilepath).isSome then state.renamed ++ [writer]
      else state.renamed }

/-- The next step of a call. -/
def proceed (file : SafeFile) (contents : Writer → ByteString) (state : SafeWriteState Writer)
    (writer : Writer) (succeeds : Bool) (count : ℕ) : Option (SafeWriteState Writer) :=
  match state.calls writer with
  | .backup =>
    some { state.goTo writer .openTmp with
      disk := if succeeds then state.disk.copy file.filename file.bakFilepath count
        else state.disk }
  | .openTmp =>
    some (if succeeds then
        { state.goTo writer (.write (state.disk.openFile file.tmpFilepath) 0) with
          disk := state.disk.create file.tmpFilepath }
      else state.goTo writer (.returned false))
  | .write opened position =>
    some (if succeeds then state.writeChunk (contents writer) writer opened position count
      else state.goTo writer .rename)
  | .rename =>
    some (if succeeds then state.moveTmp file writer else state.goTo writer (.returned true))
  | .uncalled | .returned _ | .crashed => none

/-- One step. -/
def step (file : SafeFile) (contents : Writer → ByteString) (state : SafeWriteState Writer) :
    SafeWriteEvent Writer → Option (SafeWriteState Writer)
  | .call writer dirExists =>
    if state.calls writer = .uncalled then
      some (state.goTo writer
        (if (getDirPathSegment file.filepath).isEmpty ∨ (getFileNameSegment file.filepath).isEmpty ∨
          dirExists = false then .returned false else .backup))
    else none
  | .proceed writer succeeds count => state.proceed file contents writer succeeds count
  | .crash writer =>
    if (state.calls writer).active then some (state.goTo writer .crashed) else none

/-- No call has been made. -/
def start (disk : FileSystem ByteString Byte) : SafeWriteState Writer :=
  ⟨disk, fun _ ↦ .uncalled, []⟩

end SafeWriteState

/-- Calls of `SafeWriteFile` for one file, each with its content. -/
def safeWriteSystem {Writer : Type*} [DecidableEq Writer] (file : SafeFile)
    (contents : Writer → ByteString) :
    EventSystem (SafeWriteState Writer) (SafeWriteEvent Writer) :=
  ⟨SafeWriteState.step file contents⟩

namespace SafeWriteState

variable {Writer : Type*} [DecidableEq Writer] {file : SafeFile} {contents : Writer → ByteString}
  {state next : SafeWriteState Writer} {writer other : Writer} {place : SafeWritePlace}

/-- Calls do not overlap and write all bytes: no other call uses the temporary file when a call
opens it, and `fwrite` does not end before the content does. -/
def Orderly (contents : Writer → ByteString) (state : SafeWriteState Writer) :
    SafeWriteEvent Writer → Prop
  | .proceed writer succeeds _ =>
    (state.calls writer = .openTmp → succeeds = true →
        ∀ other, (state.calls other).usesTmp = false) ∧
      (∀ position ∈ (state.calls writer).written, succeeds = false →
        position = (contents writer).length)
  | .call _ _ | .crash _ => True

instance [Fintype Writer] (state : SafeWriteState Writer) :
    ∀ event, Decidable (state.Orderly contents event)
  | .proceed _ _ _ => inferInstanceAs (Decidable (_ ∧ _))
  | .call _ _ | .crash _ => inferInstanceAs (Decidable True)

/-- The content of the last call that has moved its temporary file, or what was there before. -/
def published (contents : Writer → ByteString) (before : Option ByteString)
    (state : SafeWriteState Writer) : Option ByteString :=
  match state.renamed.getLast? with
  | none => before
  | some writer => some (contents writer)

/-! ### The invariant -/

theorem calls_goTo_self : (state.goTo writer place).calls writer = place := by
  simp [goTo]

theorem calls_goTo_of_ne (hother : other ≠ writer) :
    (state.goTo writer place).calls other = state.calls other := by
  simp [goTo, hother]

/-- What the temporary file holds for a call that uses it. -/
def TmpHolds (file : SafeFile) (content : ByteString) (disk : FileSystem ByteString Byte) :
    SafeWritePlace → Prop
  | .write opened position => disk.names file.tmpFilepath = some opened ∧
      disk.files opened = content.take position ∧ position ≤ content.length
  | .rename => disk.read file.tmpFilepath = some content
  | .uncalled | .backup | .openTmp | .returned _ | .crashed => True

/-- The file is what was moved last, one call at most uses the temporary file, which holds what that
call has written, and the calls that moved it have returned. -/
structure Whole (file : SafeFile) (contents : Writer → ByteString) (before : Option ByteString)
    (state : SafeWriteState Writer) : Prop where
  current : state.disk.read file.filename = state.published contents before
  alone : ∀ first second, (state.calls first).usesTmp = true →
    (state.calls second).usesTmp = true → first = second
  holds : ∀ writer, TmpHolds file (contents writer) state.disk (state.calls writer)
  returned : ∀ writer ∈ state.renamed, state.calls writer = .returned true
  nodup : state.renamed.Nodup

omit [DecidableEq Writer] in
theorem whole_start (disk : FileSystem ByteString Byte) :
    (start disk : SafeWriteState Writer).Whole file contents (disk.read file.filename) where
  current := rfl
  alone := fun _ _ hfirst ↦ absurd hfirst Bool.false_ne_true
  holds := fun _ ↦ trivial
  returned := fun _ hwriter ↦ absurd hwriter List.not_mem_nil
  nodup := List.nodup_nil

/-- A call that does not use the temporary file goes on, and the disk changes at most elsewhere. -/
theorem Whole.goTo {before : Option ByteString} (hwhole : state.Whole file contents before)
    (hplace : place.usesTmp = false) (hreturned : state.calls writer ≠ .returned true)
    {disk : FileSystem ByteString Byte}
    (hfile : disk.read file.filename = state.disk.read file.filename)
    (htmp : ∀ other, TmpHolds file (contents other) state.disk (state.calls other) →
      TmpHolds file (contents other) disk (state.calls other)) :
    ({ state.goTo writer place with disk := disk } : SafeWriteState Writer).Whole file contents
      before := by
  refine ⟨hfile.trans hwhole.current, fun first second hfirst hsecond ↦ ?_, fun other ↦ ?_,
    fun other hother ↦ ?_, hwhole.nodup⟩
  · have huses : ∀ other, ((state.goTo writer place).calls other).usesTmp = true →
        (state.calls other).usesTmp = true := by
      intro other hother
      by_cases hsame : other = writer
      · subst hsame
        rw [calls_goTo_self, hplace] at hother
        exact absurd hother Bool.false_ne_true
      · rwa [calls_goTo_of_ne hsame] at hother
    exact hwhole.alone first second (huses first hfirst) (huses second hsecond)
  · change TmpHolds file _ disk ((state.goTo writer place).calls other)
    by_cases hsame : other = writer
    · subst hsame
      rw [calls_goTo_self]
      cases place with
      | write | rename => exact nomatch hplace
      | _ => trivial
    · rw [calls_goTo_of_ne hsame]
      exact htmp other (hwhole.holds other)
  · change (state.goTo writer place).calls other = _
    have hbefore := hwhole.returned other hother
    by_cases hsame : other = writer
    · subst hsame
      exact absurd hbefore hreturned
    · rwa [calls_goTo_of_ne hsame]

/-- The backup is neither the file nor the temporary one. -/
theorem tmpHolds_copy {content : ByteString} {count : ℕ} {disk : FileSystem ByteString Byte}
    (hholds : TmpHolds file content disk place) :
    TmpHolds file content (disk.copy file.filename file.bakFilepath count) place := by
  have hne := file.tmpFilepath_ne_bakFilepath
  cases place with
  | write opened position =>
    obtain ⟨hnames, hfiles, hposition⟩ := hholds
    refine ⟨(FileSystem.names_copy_of_ne hne).trans hnames, ?_, hposition⟩
    rw [FileSystem.files_copy_of_ne hne hnames, hfiles]
  | rename => exact (FileSystem.read_copy_of_ne hne).trans hholds
  | _ => trivial

/-- The file is not the one that is open as the temporary file. -/
theorem names_filename_ne {disk : FileSystem ByteString Byte} {opened : ℕ}
    (hnames : disk.names file.tmpFilepath = some opened) :
    disk.names file.filename ≠ some opened :=
  fun hfile ↦ file.filename_ne_tmpFilepath (disk.names_unique _ _ opened hfile hnames)

/-- A call that uses the temporary file alone goes on with it. -/
theorem Whole.useTmp {before : Option ByteString} (hwhole : state.Whole file contents before)
    (halone : ∀ other, other ≠ writer → (state.calls other).usesTmp = false)
    (hreturned : state.calls writer ≠ .returned true) {disk : FileSystem ByteString Byte}
    (hfile : disk.read file.filename = state.disk.read file.filename)
    (hholds : TmpHolds file (contents writer) disk place) :
    ({ state.goTo writer place with disk := disk } : SafeWriteState Writer).Whole file contents
      before := by
  have hothers : ∀ other, ((state.goTo writer place).calls other).usesTmp = true →
      other = writer := by
    intro other hother
    by_contra hne
    rw [calls_goTo_of_ne hne, halone other hne] at hother
    exact Bool.false_ne_true hother
  refine ⟨hfile.trans hwhole.current, fun first second hfirst hsecond ↦ ?_, fun other ↦ ?_,
    fun other hother ↦ ?_, hwhole.nodup⟩
  · exact (hothers first hfirst).trans (hothers second hsecond).symm
  · change TmpHolds file _ disk ((state.goTo writer place).calls other)
    by_cases hsame : other = writer
    · subst hsame
      rwa [calls_goTo_self]
    · rw [calls_goTo_of_ne hsame]
      have hunused := halone other hsame
      cases hcall : state.calls other with
      | write | rename =>
        rw [hcall] at hunused
        exact nomatch hunused
      | _ => trivial
  · change (state.goTo writer place).calls other = _
    have hbefore := hwhole.returned other hother
    by_cases hsame : other = writer
    · subst hsame
      exact absurd hbefore hreturned
    · rwa [calls_goTo_of_ne hsame]

omit [DecidableEq Writer] in
/-- While a call uses the temporary file no other call does. -/
theorem Whole.others {before : Option ByteString} (hwhole : state.Whole file contents before)
    (huses : (state.calls writer).usesTmp = true) :
    ∀ other, other ≠ writer → (state.calls other).usesTmp = false := by
  intro other hne
  by_contra hother
  exact hne (hwhole.alone other writer (Bool.eq_true_of_not_eq_false hother) huses)

/-! ### One step -/

theorem whole_openTmp {before : Option ByteString} (hwhole : state.Whole file contents before)
    (hplace : state.calls writer = .openTmp)
    (halone : ∀ other, (state.calls other).usesTmp = false) :
    ({ state.goTo writer (.write (state.disk.openFile file.tmpFilepath) 0) with
      disk := state.disk.create file.tmpFilepath } : SafeWriteState Writer).Whole file contents
        before := by
  refine hwhole.useTmp (fun other _ ↦ halone other) (by simp [hplace])
    (FileSystem.read_create_of_ne file.filename_ne_tmpFilepath) ?_
  exact ⟨FileSystem.names_create_self, FileSystem.files_create_self, Nat.zero_le _⟩

theorem whole_writeChunk {before : Option ByteString} {opened position count : ℕ}
    (hwhole : state.Whole file contents before)
    (hplace : state.calls writer = .write opened position) :
    (state.writeChunk (contents writer) writer opened position count).Whole file contents
      before := by
  have hholds := hwhole.holds writer
  rw [hplace] at hholds
  obtain ⟨hnames, hfiles, hposition⟩ := hholds
  refine hwhole.useTmp (hwhole.others (by rw [hplace]; rfl)) (by simp [hplace])
    (FileSystem.read_setFile_of_ne (names_filename_ne hnames)) ⟨hnames, ?_, ?_⟩
  · have hlength : (state.disk.files opened).length = position := by
      rw [hfiles, List.length_take_of_le hposition]
    have hwritten := writeAt_length 0 (state.disk.files opened)
      (((contents writer).drop position).take count)
    rw [hlength] at hwritten
    rw [FileSystem.files_setFile_self, hwritten, hfiles, List.take_add]
    refine congrArg (List.take position _ ++ ·) ?_
    rw [List.length_take, ← List.take_eq_take_min]
  · rw [List.length_take, List.length_drop]
    omega

theorem whole_close {before : Option ByteString} {opened : ℕ}
    (hwhole : state.Whole file contents before)
    (hplace : state.calls writer = .write opened (contents writer).length) :
    (state.goTo writer .rename).Whole file contents before := by
  have hholds := hwhole.holds writer
  rw [hplace] at hholds
  obtain ⟨hnames, hfiles, -⟩ := hholds
  refine hwhole.useTmp (hwhole.others (by rw [hplace]; rfl)) (by simp [hplace]) rfl ?_
  change FileSystem.read _ _ = _
  rw [FileSystem.read, hnames, Option.map_some, hfiles, List.take_length]

theorem whole_moveTmp {before : Option ByteString} (hwhole : state.Whole file contents before)
    (hplace : state.calls writer = .rename) :
    (state.moveTmp file writer).Whole file contents before := by
  have hholds := hwhole.holds writer
  rw [hplace] at hholds
  obtain ⟨opened, hnames, hfiles⟩ := Option.map_eq_some_iff.mp hholds
  have hrenamed : (state.moveTmp file writer).renamed = state.renamed ++ [writer] := by
    simp [moveTmp, hnames]
  have hothers := hwhole.others (by rw [hplace]; rfl)
  have hunmoved : writer ∉ state.renamed := by
    intro hmem
    have hreturned := hwhole.returned writer hmem
    rw [hplace] at hreturned
    exact nomatch hreturned
  have hunused : ∀ other, ((state.goTo writer (.returned true)).calls other).usesTmp = false := by
    intro other
    by_cases hsame : other = writer
    · subst hsame
      rw [calls_goTo_self]
      rfl
    · rw [calls_goTo_of_ne hsame]
      exact hothers other hsame
  refine ⟨?_, fun first _ hfirst ↦ ?_, fun other ↦ ?_, fun other hother ↦ ?_, ?_⟩
  · rw [published, hrenamed, List.getLast?_concat]
    exact (FileSystem.read_rename_target hnames).trans (congrArg some hfiles)
  · exact absurd ((hunused first).symm.trans hfirst) Bool.false_ne_true
  · have hother := hunused other
    change TmpHolds file _ _ ((state.goTo writer (.returned true)).calls other)
    cases hcall : (state.goTo writer (.returned true)).calls other with
    | write | rename =>
      rw [hcall] at hother
      exact nomatch hother
    | _ => trivial
  · change (state.goTo writer (.returned true)).calls other = _
    by_cases hsame : other = writer
    · subst hsame
      exact calls_goTo_self
    · rw [calls_goTo_of_ne hsame]
      rw [hrenamed] at hother
      exact hwhole.returned other ((List.mem_append.mp hother).resolve_right
        fun hnew ↦ hsame (List.mem_singleton.mp hnew))
  · rw [hrenamed]
    exact List.nodup_append.mpr ⟨hwhole.nodup, List.nodup_singleton writer,
      fun first hfirst second hsecond hsame ↦
        hunmoved (List.mem_singleton.mp hsecond ▸ hsame ▸ hfirst)⟩

theorem whole_proceed {before : Option ByteString} {succeeds : Bool} {count : ℕ}
    (horderly : state.Orderly contents (.proceed writer succeeds count))
    (hwhole : state.Whole file contents before)
    (hstep : state.proceed file contents writer succeeds count = some next) :
    next.Whole file contents before := by
  unfold proceed at hstep
  cases hplace : state.calls writer with
  | backup =>
    simp only [hplace] at hstep
    obtain rfl := Option.some.inj hstep
    refine hwhole.goTo rfl (by simp [hplace]) ?_ fun other hholds ↦ ?_
    · split_ifs
      · exact FileSystem.read_copy_of_ne file.filename_ne_bakFilepath
      · rfl
    · split_ifs
      · exact tmpHolds_copy hholds
      · exact hholds
  | openTmp =>
    simp only [hplace] at hstep
    obtain rfl := Option.some.inj hstep
    split_ifs with hopened
    · exact whole_openTmp hwhole hplace (horderly.1 hplace hopened)
    · exact hwhole.goTo rfl (by simp [hplace]) rfl fun _ ↦ id
  | write opened position =>
    simp only [hplace] at hstep
    obtain rfl := Option.some.inj hstep
    split_ifs with hmore
    · exact whole_writeChunk hwhole hplace
    · have hall := horderly.2 position (by rw [hplace]; rfl) (Bool.eq_false_iff.mpr hmore)
      exact whole_close hwhole (hall ▸ hplace)
  | rename =>
    simp only [hplace] at hstep
    obtain rfl := Option.some.inj hstep
    split_ifs
    · exact whole_moveTmp hwhole hplace
    · exact hwhole.goTo rfl (by simp [hplace]) rfl fun _ ↦ id
  | uncalled | returned _ | crashed => simp [hplace] at hstep

theorem whole_step {before : Option ByteString} {event : SafeWriteEvent Writer}
    (horderly : state.Orderly contents event)
    (hstep : state.step file contents event = some next)
    (hwhole : state.Whole file contents before) : next.Whole file contents before := by
  cases event with
  | call writer dirExists =>
    obtain ⟨hplace, hnext⟩ := Option.ite_none_right_eq_some.mp hstep
    obtain rfl := Option.some.inj hnext
    refine hwhole.goTo ?_ (by simp [hplace]) rfl fun _ ↦ id
    split_ifs <;> rfl
  | proceed writer succeeds count => exact whole_proceed horderly hwhole hstep
  | crash writer =>
    obtain ⟨hactive, hnext⟩ := Option.ite_none_right_eq_some.mp hstep
    obtain rfl := Option.some.inj hnext
    refine hwhole.goTo rfl (fun hreturned ↦ ?_) rfl fun _ ↦ id
    rw [hreturned] at hactive
    exact nomatch hactive

theorem whole_run {disk : FileSystem ByteString Byte} {events : List (SafeWriteEvent Writer)}
    (halong : (safeWriteSystem file contents).Along (Orderly contents) (start disk) events)
    (hrun : (safeWriteSystem file contents).run (start disk) events = some state) :
    state.Whole file contents (disk.read file.filename) :=
  @EventSystem.run_invariant_of_along _ _ _ (Orderly contents)
    (Whole file contents (disk.read file.filename))
    (fun _ _ _ horderly hstep ↦ whole_step horderly hstep) _ _ _ halong hrun (whole_start disk)

end SafeWriteState

open SafeWriteState

/-- In every run of calls that do not overlap and write all of their bytes, whatever fails and
wherever processes crash: the file is the content of the last call that has moved its temporary
file, and the file of before until there is one; a call moves its temporary file at most once, and
then returns true. -/
theorem safe_write_atomic {Writer : Type*} [DecidableEq Writer] {file : SafeFile}
    {contents : Writer → ByteString} {disk : FileSystem ByteString Byte}
    {events : List (SafeWriteEvent Writer)} {state : SafeWriteState Writer}
    (halong : (safeWriteSystem file contents).Along (Orderly contents) (start disk) events)
    (hrun : (safeWriteSystem file contents).run (start disk) events = some state) :
    state.disk.read file.filename = (match state.renamed.getLast? with
        | none => disk.read file.filename
        | some writer => some (contents writer)) ∧
      state.renamed.Nodup ∧ ∀ writer ∈ state.renamed, state.calls writer = .returned true := by
  have hwhole := whole_run halong hrun
  exact ⟨hwhole.current, hwhole.nodup, hwhole.returned⟩

/-- A file in a directory. -/
def directoryFile : SafeFile := SafeFile.ofPath (ofString "d/f") (by decide) (by decide)

/-- What two calls write. -/
def twoContents : Fin 2 → ByteString := ![[1, 2, 3], [4, 5]]

/-- One call writes its content in two pieces and moves the file; the process of the next one
crashes after a part of its content. -/
def crashInSecond : List (SafeWriteEvent (Fin 2)) :=
  [.call 0 true, .proceed 0 true 0, .proceed 0 true 0, .proceed 0 true 2, .proceed 0 true 1,
    .proceed 0 false 0, .proceed 0 true 0, .call 1 true, .proceed 1 true 3, .proceed 1 true 0,
    .proceed 1 true 1, .crash 1]

theorem safe_write_atomic_crash :
    ∃ state, (safeWriteSystem directoryFile twoContents).run (start FileSystem.empty)
        crashInSecond = some state ∧
      state.disk.read directoryFile.tmpFilepath = some [4] ∧
      state.disk.read directoryFile.filename = some [1, 2, 3] :=
  ⟨_, rfl, by decide, (@safe_write_atomic _ _ directoryFile twoContents FileSystem.empty
    crashInSecond _ (by decide) rfl).1⟩

/-- Two calls at once: the second empties the file that the first is about to move, and what it
writes goes to the file that has been moved. -/
theorem overlapping_calls_tear :
    ∃ state, (safeWriteSystem directoryFile twoContents).run (start FileSystem.empty)
        [.call 0 true, .call 1 true, .proceed 0 true 0, .proceed 1 true 0, .proceed 0 true 0,
          .proceed 0 true 3, .proceed 0 false 0, .proceed 1 true 0, .proceed 0 true 0,
          .proceed 1 true 1] = some state ∧
      state.renamed = [0] ∧ state.disk.read directoryFile.filename = some [4] :=
  ⟨_, rfl, rfl, by decide⟩

end RocketMQClient.Common
