
import Emerald.MemoryManagement.MemoryLayout
import Emerald.Misc.SortedMap

/-!
# File descriptors

The descriptor table of a `Process` in `kernel/src/process/mod.rs`: the map `open_filesystem_nodes`
and the counter `file_index_allocator` that the next descriptor is taken from. `none` is a panic.
-/

namespace Emerald.Process

open MemoryManagement (wrapAdd)

/-- `GoingUpAllocator`. -/
structure GoingUpAllocator where
  nextId : Nat
  deriving DecidableEq

namespace GoingUpAllocator

/-- `GoingUpAllocator::new`. -/
def new : GoingUpAllocator := ⟨0⟩

/-- `allocate`, a `fetch_add` that wraps around. -/
def allocate (a : GoingUpAllocator) : Nat × GoingUpAllocator := (a.nextId, ⟨wrapAdd a.nextId 1⟩)

end GoingUpAllocator

/-- The two fields of a `Process` that make up its descriptor table, with nodes of any type. -/
structure FsNodes (ν : Type) where
  openFilesystemNodes : SortedMap ν
  fileIndexAllocator : GoingUpAllocator
  deriving DecidableEq

namespace FsNodes
variable {ν : Type}

/-- The table of a new process. -/
def new : FsNodes ν := ⟨SortedMap.empty, GoingUpAllocator.new⟩

variable (t : FsNodes ν)

/-- `finish_stdio`. -/
def finishStdio : Option (FsNodes ν) :=
  if 3 ≤ t.openFilesystemNodes.entries.length then
    if t.fileIndexAllocator.nextId < 3 then some { t with fileIndexAllocator := ⟨3⟩ } else some t
  else none

/-- `insert(fd, file).is_none()` as an assertion: "fd already exists". -/
def insertNew (fd : Nat) (file : ν) : Option (FsNodes ν) :=
  match t.openFilesystemNodes.get? fd with
  | some _ => none
  | none => some { t with openFilesystemNodes := t.openFilesystemNodes.insert fd file }

/-- `push_fs_node`. -/
def pushFsNode (file : ν) : Option (Nat × FsNodes ν) := do
  let (fd, allocator) := t.fileIndexAllocator.allocate
  let t ← { t with fileIndexAllocator := allocator }.insertNew fd file
  some (fd, t)

/-- `attach_fs_node_to_fd`. -/
def attachFsNodeToFd (fd : Nat) (file : ν) : Bool × FsNodes ν :=
  match t.openFilesystemNodes.get? fd with
  | some _ => (false, t)
  | none => (true, ⟨t.openFilesystemNodes.insert fd file, ⟨wrapAdd fd 1⟩⟩)

/-- `take_fs_node`. -/
def takeFsNode (fd : Nat) : Option ν × FsNodes ν :=
  (t.openFilesystemNodes.get? fd,
    { t with openFilesystemNodes := t.openFilesystemNodes.erase fd })

/-- `put_fs_node`. -/
def putFsNode (fd : Nat) (file : ν) : Option (FsNodes ν) := t.insertNew fd file

end FsNodes

end Emerald.Process
