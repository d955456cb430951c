
import Emerald.Process.FileCalls
import Emerald.Process.PrepareStack
import Emerald.Process.UserStrings

/-!
# Starting a process

`sys_spawn` of `kernel/src/process/syscalls/mod.rs` and `Process::allocate_process` of
`kernel/src/process/mod.rs`. A call stops with an error for the process or with a panic, and the
state is what it has changed until then.
-/

namespace Emerald.Process

open Fs (File FileSystemError FilesystemNode)
open MemoryManagement (kernelBase maxUserVirtualAddress page4K)

/-! ## The memory of a new process -/

/-- `INITIAL_STACK_SIZE_PAGES`. -/
def initialStackSizePages : Nat := 256

/-- `process_meta_addr`. -/
def processMetaAddr : Nat := maxUserVirtualAddress - page4K

/-- `stack_end`, with a page for the guard above it. -/
def stackEnd : Nat := processMetaAddr - page4K

/-- `stack_size`. -/
def stackSize : Nat := initialStackSizePages * page4K

/-- `stack_start`. -/
def stackStart : Nat := stackEnd - stackSize

/-- What `load_elf_to_vm` does for a program: what it stores in the memory of the process, for each
segment zeroes in the pages it is mapped to and then the bytes of the file, and the
`ProcessMetadata` it fills in. `map` takes pages that are mapped already too, and the new page is
then in the place of the old one. -/
structure Image where
  entryPoint : Nat
  isEntryMapped : Bool
  segments : List Store
  processMeta : List UInt8

/-- A program that has only an entry point. -/
def Image.bare (entryPoint : Nat) : Image where
  entryPoint := entryPoint
  isEntryMapped := true
  segments := []
  processMeta := []

/-- The memory and the registers with which a process starts. The segment registers and `rflags` are
the same for all. -/
structure StartState where
  memory : Nat → UInt8
  rip : Nat
  rsp : Nat
  rdi : Nat
  rsi : Nat

/-- `Process::allocate_process` after the stack has been mapped: `memory` is what its pages hold.
`none` is a panic. -/
def allocateProcess (loadElf : Option (Except FileSystemError Image)) (memory : Nat → UInt8)
    (argv : List String) : Option (Except FileSystemError StartState) :=
  match prepareStack (argv.map utf8Bytes) (stackEnd - 8) stackStart [] with
  | .error _ _ => none
  | .ok (newRsp, argc, argvPtr) stores =>
    match loadElf with
    | none => none
    | some (.error error) => some (.error error)
    | some (.ok image) =>
      if image.isEntryMapped && decide (image.entryPoint < kernelBase) then
        some (.ok {
          memory := runStores memory
            (stores ++ image.segments ++ [⟨processMetaAddr, image.processMeta⟩])
          rip := image.entryPoint
          rsp := newRsp
          rdi := argc
          rsi := argvPtr })
      else none

/-! ## The call -/

/-- A process that has been given to `push_process`. -/
structure NewProcess (ι η δ : Type) where
  id : Nat
  parentId : Nat
  argv : List String
  start : StartState
  nodes : FsNodes (FilesystemNode ι η δ)

/-- What `sys_spawn` changes: the descriptor table of the process that calls, that of the new
process while it is prepared, `PROCESS_ID_ALLOCATOR` and what it has pushed to the scheduler. -/
structure SpawnState (ι η δ : Type) where
  nodes : FsNodes (FilesystemNode ι η δ)
  child : FsNodes (FilesystemNode ι η δ)
  processIdAllocator : GoingUpAllocator
  pushed : List (NewProcess ι η δ)

/-- How a call ends early. -/
inductive Stop
  | panics
  | returns (error : SyscallError)
  deriving DecidableEq

abbrev SpawnM (ι η δ : Type) := EStateM Stop (SpawnState ι η δ)

/-- What the call meets on its way: the file of the program, whether its ELF header loads and what
is then in memory, and whether files are closed and their devices cloned without a panic. -/
structure SpawnEnv (ι η : Type) where
  openFile : String → Except FileSystemError (File ι η)
  elfLoads : Bool
  loadElf : Option (Except FileSystemError Image)
  memory : Nat → UInt8
  closesProgram : Bool
  closes : ι → η → Bool
  clonesDevice : ι → Bool
  defaultHelper : η

section
variable {ι η δ α : Type} (env : SpawnEnv ι η)

/-- The drop of a node: a directory has nothing to close. -/
def closesNode : FilesystemNode ι η δ → Bool
  | .file file => env.closes file.inode file.accessHelper
  | .directory _ => true

/-- `clone_inherit`. -/
def cloneInherit (file : File ι η) : File ι η :=
  { file with position := 0, accessHelper := env.defaultHelper }

/-- An argument that has been read, or its error. -/
def argument (toArgErr : SyscallArgError → SyscallError)
    (arg : Option (Except SyscallArgError α)) : SpawnM ι η δ α :=
  match arg with
  | none => throw .panics
  | some (.error err) => throw (.returns (toArgErr err))
  | some (.ok value) => pure value

/-- "check all files first before taking them". -/
def checkMappings : List SpawnFileMapping → SpawnM ι η δ Unit
  | [] => pure ()
  | mapping :: mappings => do
    let s ← get
    match s.nodes.openFilesystemNodes.get? mapping.srcFd with
    | none => throw (.returns .invalidFileIndex)
    | some _ => checkMappings mappings

/-- `attach_fs_node_to_fd` on the new process. A node that is refused is dropped. -/
def attachToChild (fd : Nat) (node : FilesystemNode ι η δ) : SpawnM ι η δ Unit := do
  let s ← get
  match s.child.attachFsNodeToFd fd node with
  | (true, child) => set { s with child := child }
  | (false, _) => if closesNode env node then pure () else throw .panics

/-- The files of the mappings are taken. The result is the part of `std_needed` that is left. -/
def takeMapped : List SpawnFileMapping → List Nat → SpawnM ι η δ (List Nat)
  | [], stdNeeded => pure stdNeeded
  | mapping :: mappings, stdNeeded => do
    let s ← get
    match s.nodes.takeFsNode mapping.srcFd with
    | (none, _) => throw (.returns .invalidFileIndex)
    | (some node, nodes) => do
      set { s with nodes := nodes }
      attachToChild env mapping.dstFd node
      takeMapped mappings (stdNeeded.filter (· != mapping.dstFd))

/-- The standard files that no mapping gives are inherited. -/
def inheritStd : List Nat → SpawnM ι η δ Unit
  | [] => pure ()
  | fd :: stdNeeded => do
    let s ← get
    match s.nodes.openFilesystemNodes.get? fd with
    | none => throw (.returns .invalidFileIndex)
    | some (.directory _) => throw (.returns .isDirectory)
    | some (.file file) =>
      if env.clonesDevice file.inode then do
        attachToChild env fd (.file (cloneInherit env file))
        inheritStd stdNeeded
      else throw .panics

/-- A call that stops drops the new process with its files. -/
def droppingChild (body : SpawnM ι η δ α) : SpawnM ι η δ α := fun s =>
  match body s with
  | .ok a t => .ok a t
  | .error stop t =>
    if t.child.openFilesystemNodes.values.all (closesNode env) then .error stop t
    else .error .panics t

/-- However it ends, a call that has opened the program closes it. -/
def closingProgram (body : SpawnM ι η δ α) : SpawnM ι η δ α := fun s =>
  match body s with
  | .ok a t => if env.closesProgram then .ok a t else .error .panics t
  | .error stop t => if env.closesProgram then .error stop t else .error .panics t

/-- `Process::allocate_process` in the call, which also takes the next pid. -/
def newProcess (argv : List String) : SpawnM ι η δ (Nat × StartState) := do
  let s ← get
  let (id, allocator) := s.processIdAllocator.allocate
  set { s with processIdAllocator := allocator, child := FsNodes.new }
  match allocateProcess env.loadElf env.memory argv with
  | none => throw .panics
  | some (.error _) => throw (.returns .couldNotAllocateProcess)
  | some (.ok start) => pure (id, start)

/-- `finish_stdio` and `push_process`. -/
def pushChild (id parentId : Nat) (argv : List String) (start : StartState) :
    SpawnM ι η δ Nat := do
  let s ← get
  match s.child.finishStdio with
  | none => throw .panics
  | some nodes => do
    let process : NewProcess ι η δ := ⟨id, parentId, argv, start, nodes⟩
    set { s with child := FsNodes.new, pushed := s.pushed ++ [process] }
    return id

/-- `sys_spawn` with its arguments, for the process `currentPid`. -/
def sysSpawn (user : UserSpace) (currentPid path argv fileMappings fileMappingsSize : Nat) :
    SpawnM ι η δ Nat := do
  let path ← argument toArgErr0 (sysArgToStr user path)
  let argv ← argument toArgErr1 (sysArgToStrArray user argv)
  let fileMappings ← argument toArgErr2
    (some (sysArgToFileMappingsArray user fileMappings fileMappingsSize))
  checkMappings fileMappings
  match env.openFile path with
  | .error error =>
    match SyscallError.fromFileSystemError error with
    | some error => throw (.returns error)
    | none => throw .panics
  | .ok _ => closingProgram env do
    if env.elfLoads then do
      let (id, start) ← newProcess env argv
      droppingChild env do
        let stdNeeded ← takeMapped env fileMappings [0, 1, 2]
        inheritStd env stdNeeded
      pushChild id currentPid argv start
    else throw (.returns .couldNotLoadElf)

end

end Emerald.Process
