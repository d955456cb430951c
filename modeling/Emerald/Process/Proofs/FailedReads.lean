
import Emerald.Process.FileCalls

/-!
# Reads that fail

A read that returns an error leaves the descriptor table as it was, except for a file in a blocking
mode. That is put back only by a read that succeeds.
-/

namespace Emerald.Fs

open Devices (BlockingMode)

variable {ι η : Type}
variable {f g : File ι η} {len : Nat} {error : FileSystemError} {mode : BlockingMode}
variable {accessHelper : η}

/-- A file in this blocking mode asks again after this answer. -/
def Continues : BlockingMode → Except FileSystemError (List UInt8) → Prop
  | .line, .ok bytes => bytes ≠ [10] ∧ bytes ≠ [0]
  | .block _, .ok bytes => bytes = []
  | _, _ => False

/-- The first answer that a file in a blocking mode does not ask again after is an error other than
the end of the file. -/
structure FirstError (mode : BlockingMode) (answers : List (Answer η)) (error : FileSystemError)
    (accessHelper : η) : Prop where
  notEnd : error ≠ .endOfFile
  first : ∃ earlier later, answers = earlier ++ ⟨.error error, accessHelper⟩ :: later ∧
    ∀ a ∈ earlier, Continues mode a.result

/-- A read of a file in a blocking mode fails with the error and leaves the access helper. -/
inductive ReadFails (f : File ι η) (answers : List (Answer η)) : FileSystemError → η → Prop
  | notReadable (denied : f.fileAccess.read = false) :
    ReadFails f answers .readNotSupported f.accessHelper
  | answer {error : FileSystemError} {accessHelper : η} (allowed : f.fileAccess.read = true)
    (single : ∀ size, f.blockingMode = .block size → size = 1)
    (first : FirstError f.blockingMode answers error accessHelper) :
    ReadFails f answers error accessHelper

theorem not_firstError_nil :
    ¬ FirstError mode [] error accessHelper := by
  intro first
  obtain ⟨earlier, later, split, -⟩ := first.first
  cases earlier with
  | nil => cases split
  | cons a earlier => cases split

/-- The first answer decides, or the file asks again. -/
theorem firstError_cons_iff {a : Answer η} {answers : List (Answer η)} :
    FirstError mode (a :: answers) error accessHelper ↔
      (error ≠ .endOfFile ∧ a = ⟨.error error, accessHelper⟩) ∨
        (Continues mode a.result ∧ FirstError mode answers error accessHelper) := by
  constructor
  · intro first
    obtain ⟨earlier, later, split, continues⟩ := first.first
    cases earlier with
    | nil =>
      cases split
      exact .inl ⟨first.notEnd, rfl⟩
    | cons b earlier =>
      cases split
      exact .inr ⟨continues _ List.mem_cons_self, first.notEnd, earlier, later, rfl,
        fun c mem => continues c (List.mem_cons_of_mem _ mem)⟩
  · intro either
    cases either with
    | inl here => exact ⟨here.1, [], answers, by rw [here.2]; rfl, fun _ mem => nomatch mem⟩
    | inr there =>
      obtain ⟨earlier, later, rfl, continues⟩ := there.2.first
      refine ⟨there.2.notEnd, a :: earlier, later, rfl, ?_⟩
      intro b mem
      cases List.mem_cons.mp mem with
      | inl here =>
        rw [here]
        exact there.1
      | inr later => exact continues b later

section
variable {e : FileSystemError} {bytes : List UInt8}
variable {mode : BlockingMode} {a : Answer η} {answers : List (Answer η)}
  {error : FileSystemError} {accessHelper : η}

/-- An answer that the file asks again after only hands over its access helper. -/
theorem firstError_again_iff (result : a.result = .ok bytes) (again : Continues mode (.ok bytes)) :
    (∃ helper, FirstError mode (a :: answers) error helper ∧
        g = { f with accessHelper := helper }) ↔
      ∃ helper, FirstError mode answers error helper ∧
        g = { f.answered a with accessHelper := helper } := by
  have notHere : ∀ helper, a ≠ ⟨.error error, helper⟩ := by
    intro helper same
    rw [same] at result
    cases result
  simp only [firstError_cons_iff, result, again, true_and, notHere, and_false, false_or]
  rfl

theorem not_firstError_of_ok (result : a.result = .ok bytes) (last : ¬ Continues mode (.ok bytes)) :
    ¬ FirstError mode (a :: answers) error accessHelper := by
  intro first
  cases firstError_cons_iff.mp first with
  | inl here =>
    rw [here.2] at result
    cases result
  | inr there =>
    rw [result] at there
    exact last there.1

/-- An error decides: the file fails with it unless it is the end of the file. -/
theorem firstError_error_iff (result : a.result = .error e) :
    FirstError mode (a :: answers) error accessHelper ↔
      e ≠ .endOfFile ∧ error = e ∧ accessHelper = a.accessHelper := by
  obtain ⟨outcome, helper⟩ := a
  cases result
  rw [firstError_cons_iff]
  constructor
  · intro either
    cases either with
    | inl here =>
      obtain ⟨notEnd, same⟩ := here
      cases same
      exact ⟨notEnd, rfl, rfl⟩
    | inr there =>
      have continues := there.1
      cases mode with
      | none | line | block size => exact continues.elim
  · intro here
    obtain ⟨notEnd, rfl, rfl⟩ := here
    exact .inl ⟨notEnd, rfl⟩

/-- A read that returns the error it was answered. -/
theorem returns_answered_iff (result : a.result = .error e) (notEnd : e = .endOfFile → False) :
    Progress.returns ((.error e : Except FileSystemError (List UInt8)), f.answered a) =
        .returns (.error error, g) ↔
      ∃ helper, FirstError mode (a :: answers) error helper ∧
        g = { f with accessHelper := helper } := by
  simp only [firstError_error_iff result, Progress.returns.injEq, Prod.mk.injEq, Except.error.injEq]
  constructor
  · intro same
    exact ⟨_, ⟨notEnd, same.1.symm, rfl⟩, same.2.symm⟩
  · intro failed
    obtain ⟨helper, ⟨-, rfl, rfl⟩, rfl⟩ := failed
    exact ⟨rfl, rfl⟩

end

namespace File
variable {answers : List (Answer η)} {error : FileSystemError}

theorem readLine_eq_error_iff {buf : List UInt8} :
    readLine len answers buf f = .returns (.error error, g) ↔
      ∃ accessHelper, FirstError .line answers error accessHelper ∧
        g = { f with accessHelper := accessHelper } := by
  induction answers generalizing buf f with
  | nil =>
    refine iff_of_false ?_ ?_
    · intro done
      cases done
    · intro failed
      obtain ⟨helper, first, -⟩ := failed
      exact not_firstError_nil first
  | cons a answers ih =>
    rw [readLine]
    split
    · rename_i char result
      by_cases last : char = 10 ∨ char = 0
      · simp only [last]
        refine iff_of_false (fun done => by cases done) ?_
        intro failed
        obtain ⟨helper, first, -⟩ := failed
        refine not_firstError_of_ok result ?_ first
        intro continues
        cases last with
        | inl newline => exact continues.1 (by rw [newline])
        | inr nul => exact continues.2 (by rw [nul])
      · simp only [last, if_false]
        rw [ih, firstError_again_iff result]
        exact ⟨fun same => last (.inl (by cases same; rfl)),
          fun same => last (.inr (by cases same; rfl))⟩
    · rename_i bytes other result
      rw [ih, firstError_again_iff result]
      exact ⟨fun same => other 10 same, fun same => other 0 same⟩
    · rename_i result
      simp [firstError_error_iff result]
    · rename_i e other result
      rw [returns_answered_iff result other]

theorem readBlock_eq_error_iff {size : Nat} {answers : List (Answer η)} {f g : File ι η}
    {error : FileSystemError} :
    readBlock answers f = .returns (.error error, g) ↔
      ∃ accessHelper, FirstError (.block size) answers error accessHelper ∧
        g = { f with accessHelper := accessHelper } := by
  induction answers generalizing f with
  | nil =>
    refine iff_of_false ?_ ?_
    · intro done
      cases done
    · intro failed
      obtain ⟨helper, first, -⟩ := failed
      exact not_firstError_nil first
  | cons a answers ih =>
    rw [readBlock]
    split
    · rename_i result
      rw [ih, firstError_again_iff result]
      exact rfl
    · rename_i bytes some result
      refine iff_of_false (fun done => by cases done) ?_
      intro failed
      obtain ⟨helper, first, -⟩ := failed
      have stops : ¬ Continues (.block size) (.ok bytes) := fun empty => some empty
      exact not_firstError_of_ok result stops first
    · rename_i result
      simp [firstError_error_iff result]
    · rename_i e other result
      rw [returns_answered_iff result other]

/-- When a file in a blocking mode fails to read. -/
theorem read_eq_error_iff (blocking : f.isBlocking = true) :
    f.read len answers = .returns (.error error, g) ↔
      ∃ accessHelper, ReadFails f answers error accessHelper ∧
        g = { f with accessHelper := accessHelper } := by
  unfold read
  split
  · rename_i allowed
    have fails : ∀ helper, ReadFails f answers error helper ↔
        (∀ size, f.blockingMode = .block size → size = 1) ∧
          FirstError f.blockingMode answers error helper := by
      intro helper
      constructor
      · intro failed
        cases failed with
        | notReadable denied =>
          rw [denied] at allowed
          cases allowed
        | answer _ single first => exact ⟨single, first⟩
      · intro both
        exact .answer allowed both.1 both.2
    simp only [fails]
    cases mode : f.blockingMode with
    | none =>
      rw [isBlocking, mode] at blocking
      cases blocking
    | line => simp [readLine_eq_error_iff, mode]
    | block size =>
      by_cases single : size = 1
      · subst single
        simp [@readBlock_eq_error_iff _ _ 1, mode]
      · simp [single]
  · rename_i denied
    rw [Bool.not_eq_true] at denied
    constructor
    · intro done
      cases done
      exact ⟨f.accessHelper, .notReadable denied, rfl⟩
    · intro failed
      obtain ⟨helper, failed, rfl⟩ := failed
      cases failed with
      | notReadable _ => rfl
      | answer allowed =>
        rw [denied] at allowed
        cases allowed

/-- Any other file that fails to read is the same afterwards, but for its access helper. -/
theorem eq_of_read_eq_error (ordinary : f.isBlocking = false)
    (failed : f.read len answers = .returns (.error error, g)) :
    ∃ accessHelper, g = { f with accessHelper := accessHelper } := by
  unfold read at failed
  split at failed
  · cases mode : f.blockingMode with
    | none =>
      simp only [mode] at failed
      cases answers with
      | nil => cases failed
      | cons a answers =>
        simp only [readOnce] at failed
        split at failed
        · cases failed
        · cases failed
          exact ⟨a.accessHelper, by rw [← mode]; rfl⟩
    | line | block size =>
      rw [isBlocking, mode] at ordinary
      cases ordinary
  · cases failed
    exact ⟨f.accessHelper, rfl⟩

end File

end Emerald.Fs

namespace Emerald.Process

open Fs (Answer File FileSystemError FilesystemNode ReadFails)
open MemoryManagement (PhysicalMemory VirtualMemoryMapper)

variable {ι η δ : Type}

/-- The node is the same open file or directory. Only the access helper, in which a filesystem keeps
what it likes, may differ. -/
inductive SameOpen : FilesystemNode ι η δ → FilesystemNode ι η δ → Prop
  | file (f : File ι η) (accessHelper : η) :
    SameOpen (.file f) (.file { f with accessHelper := accessHelper })
  | directory (d : δ) : SameOpen (.directory d) (.directory d)

/-- The same descriptors refer to the same files and directories. -/
def KeepsNodes (nodes nodes' : FsNodes (FilesystemNode ι η δ)) : Prop :=
  ∀ fd, Option.Rel SameOpen (nodes.openFilesystemNodes.get? fd)
    (nodes'.openFilesystemNodes.get? fd)

theorem SameOpen.refl (node : FilesystemNode ι η δ) : SameOpen node node := by
  cases node with
  | file f => exact .file f f.accessHelper
  | directory d => exact .directory d

theorem KeepsNodes.refl (nodes : FsNodes (FilesystemNode ι η δ)) : KeepsNodes nodes nodes := by
  intro fd
  cases nodes.openFilesystemNodes.get? fd with
  | none => exact .none
  | some node => exact .some (.refl node)

/-- A file in a blocking mode fails to read, with an error for the process. -/
def LosesFile (closes : ι → η → Bool) (fileIndex : Nat) (answers : List (Answer η))
    (nodes : FsNodes (FilesystemNode ι η δ)) : Prop :=
  ∃ file error accessHelper,
    nodes.openFilesystemNodes.get? fileIndex = some (.file file) ∧ file.isBlocking = true ∧
      ReadFails file answers error accessHelper ∧
      (SyscallError.fromFileSystemError error).isSome ∧ closes file.inode accessHelper = true

section
variable {closes : ι → η → Bool} {fileIndex size : Nat} {answers : List (Answer η)}
  {file : File ι η} {nodes nodes' : FsNodes (FilesystemNode ι η δ)} {error : SyscallError}

theorem failWith_eq_error {e : FileSystemError}
    (failed : failWith e nodes = .returns (.error error, nodes')) :
    SyscallError.fromFileSystemError e = some error ∧ nodes' = nodes := by
  unfold failWith at failed
  split at failed
  · rename_i converted
    cases failed
    exact ⟨converted, rfl⟩
  · cases failed

/-- A call that fails with the file in the table has at most changed its access helper. -/
theorem readInPlace_keeps (found : nodes.openFilesystemNodes.get? fileIndex = some (.file file))
    (ordinary : file.isBlocking = false)
    (failed : readInPlace fileIndex size answers file nodes = .returns (.error error, nodes')) :
    KeepsNodes nodes nodes' := by
  unfold readInPlace at failed
  split at failed
  · cases failed
  · cases failed
  · cases failed
  · rename_i e g done
    obtain ⟨helper, rfl⟩ := File.eq_of_read_eq_error ordinary done
    obtain ⟨-, rfl⟩ := failWith_eq_error failed
    intro fd
    rw [SortedMap.get?_insert]
    by_cases same : fd = fileIndex
    · rw [if_pos same, same, found]
      exact .some (.file file helper)
    · rw [if_neg same]
      exact KeepsNodes.refl nodes fd

/-- A call that fails with the file out of the table leaves it out. -/
theorem readTaken_eq_error_iff (blocking : file.isBlocking = true) :
    readTaken closes fileIndex size answers file nodes = .returns (.error error, nodes') ↔
      nodes' = nodes ∧ ∃ e accessHelper, ReadFails file answers e accessHelper ∧
        SyscallError.fromFileSystemError e = some error ∧
        closes file.inode accessHelper = true := by
  constructor
  · intro failed
    unfold readTaken at failed
    split at failed
    · cases failed
    · cases failed
    · split at failed
      · cases failed
      · cases failed
    · rename_i e g done
      obtain ⟨helper, fails, rfl⟩ := (File.read_eq_error_iff blocking).mp done
      split at failed
      · rename_i closed
        obtain ⟨converted, same⟩ := failWith_eq_error failed
        exact ⟨same, e, helper, fails, converted, closed⟩
      · cases failed
  · intro fails
    obtain ⟨rfl, e, helper, fails, converted, closed⟩ := fails
    have done : file.read size answers =
        .returns (.error e, { file with accessHelper := helper }) :=
      (File.read_eq_error_iff blocking).mpr ⟨helper, fails, rfl⟩
    simp only [readTaken, done, closed, if_true, failWith, converted]

theorem not_keepsNodes_takeFsNode {node : FilesystemNode ι η δ}
    (found : nodes.openFilesystemNodes.get? fileIndex = some node) :
    ¬ KeepsNodes nodes (nodes.takeFsNode fileIndex).2 := by
  intro keeps
  have there := keeps fileIndex
  rw [found, show (nodes.takeFsNode fileIndex).2.openFilesystemNodes =
    nodes.openFilesystemNodes.erase fileIndex from rfl, SortedMap.get?_erase, if_pos rfl] at there
  cases there

end

/-- A failed `sys_read` keeps every descriptor exactly if it does not lose the file it reads. -/
theorem sysRead_keepsNodes_iff (vm : VirtualMemoryMapper) (memory : PhysicalMemory)
    (closes : ι → η → Bool) (fileIndex buf size : Nat) (answers : List (Answer η))
    (nodes : FsNodes (FilesystemNode ι η δ)) :
    (∀ error nodes', sysRead vm memory closes fileIndex buf size answers nodes =
        .returns (.error error, nodes') → KeepsNodes nodes nodes') ↔
      ((∃ slice, sysArgToMutSlice vm memory 1 buf size = .ok slice) →
        ¬ LosesFile closes fileIndex answers nodes) := by
  unfold sysRead
  cases checked : sysArgToMutSlice vm memory 1 buf size with
  | error err =>
    refine iff_of_true ?_ (fun accepted => nomatch accepted)
    intro error nodes' failed
    cases failed
    exact .refl nodes
  | ok slice =>
    simp only [Except.ok.injEq, exists_eq', true_implies]
    cases found : nodes.openFilesystemNodes.get? fileIndex with
    | none =>
      refine iff_of_true ?_ ?_
      · intro error nodes' failed
        cases failed
        exact .refl nodes
      · intro loses
        obtain ⟨file, -, -, there, -⟩ := loses
        rw [found] at there
        cases there
    | some node =>
      cases node with
      | directory d =>
        refine iff_of_true ?_ ?_
        · intro error nodes' failed
          cases failed
          exact .refl nodes
        · intro loses
          obtain ⟨file, -, -, there, -⟩ := loses
          rw [found] at there
          cases there
      | file file =>
        cases blocking : file.isBlocking with
        | false =>
          simp only [blocking]
          refine iff_of_true ?_ ?_
          · intro error nodes' failed
            exact readInPlace_keeps found blocking failed
          · intro loses
            obtain ⟨other, -, -, there, blocking', -⟩ := loses
            rw [found] at there
            cases there
            rw [blocking] at blocking'
            cases blocking'
        | true =>
          simp only [blocking, if_true, readTaken_eq_error_iff blocking]
          constructor
          · intro keeps loses
            obtain ⟨other, e, helper, there, -, fails, converted, closed⟩ := loses
            rw [found] at there
            cases there
            obtain ⟨error, converted⟩ := Option.isSome_iff_exists.mp converted
            exact not_keepsNodes_takeFsNode found
              (keeps error _ ⟨rfl, e, helper, fails, converted, closed⟩)
          · intro safe error nodes' failed
            obtain ⟨-, e, helper, fails, converted, closed⟩ := failed
            refine absurd ⟨file, e, helper, found, blocking, fails, ?_, closed⟩ safe
            rw [converted]
            rfl

/-- A table whose only file was opened for writing, in line mode. -/
def writeOnlyTable : FsNodes (FilesystemNode Unit Unit Unit) :=
  ⟨SortedMap.empty.insert 3 (.file ⟨(), 0, false, .line, (), ⟨false, true⟩⟩), ⟨4⟩⟩

/-- Reading from it is refused, and the descriptor is gone. -/
theorem sysRead_loses_descriptor :
    sysRead ⟨0, true⟩ (fun _ _ => 0#64) (fun _ _ => true) 3 0 0 [] writeOnlyTable =
        .returns (.error .couldNotReadFromFile, ⟨SortedMap.empty, ⟨4⟩⟩) ∧
      writeOnlyTable.openFilesystemNodes.keys = [3] := by
  constructor
  · rfl
  · rfl

end Emerald.Process
