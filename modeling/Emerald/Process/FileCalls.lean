
import Emerald.Fs.File
import Emerald.Process.FileDescriptors
import Emerald.Process.Syscalls

/-!
# Reading from a descriptor

`sys_read` of `kernel/src/process/syscalls/mod.rs`. A file in a blocking mode is taken out of the
descriptor table while it is read. `closes` tells for a handle whether `close_file` succeeds when it
is dropped, which is a panic otherwise.
-/

namespace Emerald.Process

open Fs (Answer File FileSystemError FilesystemNode Progress)
open MemoryManagement (PhysicalMemory VirtualMemoryMapper)

/-- `From<FileSystemError> for SyscallError`: "should not happen?" is a panic. -/
def SyscallError.fromFileSystemError : FileSystemError → Option SyscallError
  | .invalidPath => some .couldNotOpenFile
  | .fileNotFound => some .fileNotFound
  | .readNotSupported => some .couldNotReadFromFile
  | .writeNotSupported => some .couldNotWriteToFile
  | .couldNotSetFileLength => some .couldNotWriteToFile
  | .endOfFile => some .endOfFile
  | .isNotDirectory => some .isNotDirectory
  | .isDirectory => some .isDirectory
  | .alreadyExists => some .alreadyExists
  | .bufferNotLargeEnough _ => some .bufferTooSmall
  | .operationNotSupported => some .operationNotSupported
  | .diskReadError _ _ => none
  | .fatError _ => none
  | .mappingError _ => none
  | .deviceNotFound => none
  | .mustBeAbsolute => none
  | .partitionTableNotFound => none

section
variable {ι η δ : Type}

/-- A call that returns this, with the `FileSystemError` converted by `?`. -/
def failWith (error : FileSystemError) (nodes : FsNodes (FilesystemNode ι η δ)) :
    Progress (SyscallResult × FsNodes (FilesystemNode ι η δ)) :=
  match SyscallError.fromFileSystemError error with
  | some error => .returns (.error error, nodes)
  | none => .panics

/-- A blocking read, with the file out of the table. -/
def readTaken (closes : ι → η → Bool) (fd size : Nat) (answers : List (Answer η))
    (file : File ι η) (nodes : FsNodes (FilesystemNode ι η δ)) :
    Progress (SyscallResult × FsNodes (FilesystemNode ι η δ)) :=
  match file.read size answers with
  | .waits => .waits
  | .panics => .panics
  | .returns (.ok bytes, file) =>
    match nodes.putFsNode fd (.file file) with
    | some nodes => .returns (.ok (BitVec.ofNat 64 bytes.length), nodes)
    | none => .panics
  | .returns (.error error, file) =>
    -- the file is not put back, and is dropped
    if closes file.inode file.accessHelper then failWith error nodes else .panics

/-- Any other read, with the file in the table. -/
def readInPlace (fd size : Nat) (answers : List (Answer η)) (file : File ι η)
    (nodes : FsNodes (FilesystemNode ι η δ)) :
    Progress (SyscallResult × FsNodes (FilesystemNode ι η δ)) :=
  let put (file : File ι η) : FsNodes (FilesystemNode ι η δ) :=
    { nodes with openFilesystemNodes := nodes.openFilesystemNodes.insert fd (.file file) }
  match file.read size answers with
  | .waits => .waits
  | .panics => .panics
  | .returns (.ok bytes, file) => .returns (.ok (BitVec.ofNat 64 bytes.length), put file)
  | .returns (.error error, file) => failWith error (put file)

/-- `sys_read`. -/
def sysRead (vm : VirtualMemoryMapper) (memory : PhysicalMemory) (closes : ι → η → Bool)
    (fileIndex buf size : Nat) (answers : List (Answer η))
    (nodes : FsNodes (FilesystemNode ι η δ)) :
    Progress (SyscallResult × FsNodes (FilesystemNode ι η δ)) :=
  match sysArgToMutSlice vm memory 1 buf size with
  | .error err => .returns (.error (toArgErr0 err), nodes)
  | .ok _ =>
    match nodes.openFilesystemNodes.get? fileIndex with
    | none => .returns (.error .invalidFileIndex, nodes)
    | some (.directory _) => failWith .isDirectory nodes
    | some (.file file) =>
      if file.isBlocking then
        readTaken closes fileIndex size answers file (nodes.takeFsNode fileIndex).2
      else readInPlace fileIndex size answers file nodes

end

end Emerald.Process
