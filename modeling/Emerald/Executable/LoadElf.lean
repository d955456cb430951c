
import Emerald.Cpu
import Emerald.Fs.File
import Emerald.MemoryManagement.VirtualMemoryMapper

/-!
# Loading an executable

`load_elf_to_vm` of `kernel/src/executable/mod.rs`, over the headers of a parsed file. What
`read_file` answers while the `k`-th segment is read is `reads k`. `none` is a panic, or a read that
has not returned.
-/

namespace Emerald.Executable

open Fs MemoryManagement

/-- `ElfProgramType`, with one value for all that the loader skips. -/
inductive ElfProgramType
  | load
  | programHeader
  | other

structure ElfProgram where
  ty : ElfProgramType
  flags : BitVec 32
  offset : Nat
  virtualAddress : Nat
  physicalAddress : Nat
  fileSize : Nat
  memSize : Nat

structure ElfSection where
  name : String
  address : Nat
  size : Nat

structure Elf where
  programHeaders : List ElfProgram
  sections : List ElfSection

/-- The fields of `ProcessMetadata` that the loader writes. -/
structure ProcessMetadata where
  imageBase : Nat
  imageSize : Nat
  programHeadersOffset : Nat
  ehFrameAddress : Nat
  ehFrameSize : Nat
  textAddress : Nat
  textSize : Nat

/-- The machine and the file, and the bytes put into memory so far, each with its address. -/
structure Loader (ι η : Type) where
  cpu : Cpu
  cr3 : Nat
  physical : Physical
  file : File ι η
  written : List (Nat × List UInt8)

/-- `min_address`, `max_address` and `phdr_address`. -/
structure Addresses where
  min : Nat
  max : Nat
  phdr : Nat

/-- `to_virtual_memory_flags`, with `PTE_USER`. -/
def toVirtualMemoryFlags (flags : BitVec 32) : PageFlags :=
  ⟨flags &&& 2#32 ≠ 0#32, true, false, false⟩

variable {ι η : Type}

/-- The loop over the program headers. -/
def loadSegments (vm : VirtualMemoryMapper) (reads : Nat → List (Answer η)) :
    List ElfProgram → Addresses → Loader ι η →
      Option (Except FileSystemError Addresses × Loader ι η)
  | [], a, s => some (.ok a, s)
  | segment :: rest, a, s =>
    match segment.ty with
    | .load => do
      guard (segment.virtualAddress = segment.physicalAddress)
      let entry : VirtualMemoryMapEntry :=
        ⟨segment.virtualAddress, none, segment.memSize, toVirtualMemoryFlags segment.flags⟩
      let a := { a with min := Min.min a.min entry.virtualAddress
                        max := Max.max a.max (wrapAdd entry.virtualAddress entry.size) }
      let physical ← vm.map entry s.physical
      -- `seek` only sets the position
      let file := { s.file with position := segment.offset }
      match file.read segment.fileSize (reads s.written.length) with
      | .returns (.ok bytes, file) =>
        guard (bytes.length = segment.fileSize)
        let written := s.written ++ [(segment.virtualAddress, bytes)]
        loadSegments vm reads rest a
          { s with physical := physical, file := file, written := written }
      | .returns (.error e, file) => some (.error e, { s with physical := physical, file := file })
      | _ => none
    | .programHeader => loadSegments vm reads rest { a with phdr := segment.virtualAddress } s
    | .other => loadSegments vm reads rest a s

/-- The loop over the sections. -/
def ProcessMetadata.addSection (m : ProcessMetadata) (part : ElfSection) : ProcessMetadata :=
  if part.name = ".eh_frame" then
    { m with ehFrameAddress := part.address, ehFrameSize := part.size }
  else if part.name = ".text" then { m with textAddress := part.address, textSize := part.size }
  else m

/-- What the loader sets after the loop over the sections. -/
def ProcessMetadata.withImage (m : ProcessMetadata) (a : Addresses) : ProcessMetadata :=
  let m := { m with imageBase := a.min, imageSize := a.max - a.min
                    programHeadersOffset := a.phdr - a.min }
  if m.ehFrameAddress < a.min ∨ a.max ≤ m.ehFrameAddress then
    { m with ehFrameAddress := 0, ehFrameSize := 0 }
  else m

/-- `load_elf_to_vm`. The result, then the metadata and the machine. -/
def loadElfToVm (kernel : VirtualMemoryMapper) (reads : Nat → List (Answer η)) (elf : Elf)
    (m : ProcessMetadata) (vm : VirtualMemoryMapper) (s : Loader ι η) :
    Option (Except FileSystemError (Nat × Nat) × ProcessMetadata × Loader ι η) := do
  let cpu ← s.cpu.pushCli
  let oldVm := VirtualMemoryMapper.getCurrentVm kernel s.cr3
  let (result, s) ← loadSegments vm reads elf.programHeaders ⟨Cpu.usizeMax, 0, 0⟩
    { s with cpu := cpu, cr3 := vm.pageMapL4 }
  match result with
  | .error e => some (.error e, m, s)
  | .ok a =>
    guard (a.min ≤ a.phdr ∧ a.phdr < a.max)
    let m := (elf.sections.foldl ProcessMetadata.addSection m).withImage a
    let cpu ← s.cpu.popCli
    some (.ok (a.min, a.max), m, { s with cpu := cpu, cr3 := oldVm.pageMapL4 })

end Emerald.Executable
