
import Mathlib

/-!
# Nodes and errors of the filesystems

The nodes of `kernel/src/fs/mod.rs`, the extra data a handle keeps for the filesystem, and the
errors of a filesystem operation. The device of a `FileNode` is left out: the files of a disk have
none.
-/

namespace Emerald.Fs

/-- `ide::IdeError`. -/
inductive IdeError
  | deviceError
  | unalignedSize
  | boundsExceeded
  deriving DecidableEq

/-- `fat::FatError`. -/
inductive FatError
  | invalidBootSector
  | unexpectedFatEntry
  | notEnoughSpace
  deriving DecidableEq

/-- `mapping::MappingError`. -/
inductive MappingError
  | mustBeAbsolute
  | invalidPath
  | partOfParentNotMounted
  | alreadyMounted
  deriving DecidableEq

/-- `FileSystemError`. -/
inductive FileSystemError
  | partitionTableNotFound
  | deviceNotFound
  | diskReadError (sector : Nat) (error : IdeError)
  | fatError (error : FatError)
  | fileNotFound
  | invalidPath
  | mustBeAbsolute
  | isNotDirectory
  | isDirectory
  | readNotSupported
  | writeNotSupported
  | operationNotSupported
  | couldNotSetFileLength
  | endOfFile
  | bufferNotLargeEnough (size : Nat)
  | alreadyExists
  | mappingError (error : MappingError)
  deriving DecidableEq

/-- `BaseNode`. -/
structure BaseNode where
  name : List Char
  attributes : Nat
  startCluster : Nat
  parentDirSector : Nat
  parentDirIndex : Nat
  deriving DecidableEq

/-- `FileNode`: a file with the size its handle takes it to have. -/
structure FileNode extends BaseNode where
  size : Nat
  deriving DecidableEq

/-- `NO_PARENT_DIR_SECTOR`. -/
def noParentDirSector : Nat := 0xFFFFFFFFFFFFFFFF

/-- `DirectoryNode`. -/
structure DirectoryNode extends BaseNode
  deriving DecidableEq

/-- `Node`. -/
inductive Node
  | file (node : FileNode)
  | directory (node : DirectoryNode)
  deriving DecidableEq

/-- `DirTreverse`: the answer of a handler that is given the nodes of a directory. -/
inductive DirTreverse
  | cont
  | stop
  deriving DecidableEq

/-- `AccessHelper`: the cluster a handle holds, if any, and its index in the file. -/
structure AccessHelper where
  currentCluster : Nat
  clusterIndex : Nat
  deriving DecidableEq

/-- `AccessHelper::default`. -/
def AccessHelper.new : AccessHelper := ⟨0, 0⟩

end Emerald.Fs
