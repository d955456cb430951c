
import Emerald.MemoryManagement.LinkedPages

/-!
# The discovery of physical memory

`PhysicalPageAllocator::new` of `kernel/src/memory_management/physical_page_allocator.rs` goes
through the memory map of the boot loader and puts the pages of its regions on the free list.
`checked` is whether the kernel is built with debug assertions and overflow checks, as it is unless
it is built for release. `none` is a panic.
-/

namespace Emerald.MemoryManagement

/-- `MemoryMapType`. -/
inductive MemoryMapType
  | available
  | reserved
  | acpiReclaimable
  | acpiNonVolatile
  | badMemory
  | undefined (ty : Nat)
  deriving DecidableEq

/-- `MemoryMap`: a region of physical memory, whose end is an address. -/
structure MemoryMap where
  baseAddr : Nat
  length : Nat
  memType : MemoryMapType
  fits : baseAddr + length < 2 ^ 64
  deriving DecidableEq

/-- `base_addr + length`. -/
def MemoryMap.end (m : MemoryMap) : Nat := m.baseAddr + m.length

/-- What the boot loader leaves: the kernel with its end, the multiboot data with its end, both in
the memory that is mapped at `KERNEL_BASE`, and the memory map. -/
structure BootInfo where
  kernelElfEnd : Nat
  endAddress : Nat
  memoryMaps : List MemoryMap
  kernelMapped : kernelLink < kernelElfEnd ∧ kernelElfEnd ≤ kernelEnd
  multibootMapped : kernelBase ≤ endAddress ∧ endAddress ≤ kernelEnd

namespace BootInfo

/-- `physical_kernel_end` at first: the end of the pages of the kernel. -/
def kernelPagesEnd (info : BootInfo) : Nat := virtual2physical (alignUp info.kernelElfEnd page4K)

/-- `multiboot_end`. -/
def multibootEnd (info : BootInfo) : Nat := alignUp (virtual2physical info.endAddress) page4K

/-- `physical_kernel_end`: "if its after the kernel by a lot, then panic". -/
def physicalKernelEnd (info : BootInfo) : Option Nat :=
  if info.kernelPagesEnd < info.multibootEnd then
    if info.multibootEnd - info.kernelPagesEnd < page4K * 5 then some info.multibootEnd else none
  else some info.kernelPagesEnd

end BootInfo

variable (checked : Bool)

/-- `physical2virtual` with its debug assertion. -/
def physical2virtualIn (addr : Nat) : Option Nat :=
  if checked = true ∧ kernelMappedSize ≤ addr then none else some (wrapAdd addr kernelBase)

/-- `align_up` to a page, where the sum can overflow. -/
def alignUpIn (addr : Nat) : Option Nat :=
  if checked = true ∧ 2 ^ 64 ≤ addr + page4K then none
  else some (alignDown (wrapAdd addr (page4K - 1)) page4K)

/-- The two addresses as pointers. -/
def PageRange.ofAddresses (start end_ : Nat) : PageRange :=
  ⟨start, end_ % 2 ^ 64, Nat.mod_lt _ (Nat.two_pow_pos 64)⟩

namespace LinkedPages

/-- The first address of a region that is used, and the allocator with its `start`: the region that
holds the kernel is used from the end of the kernel on. -/
def startPhysical (physicalKernelEnd : Nat) (m : MemoryMap) (a : LinkedPages) :
    Option (Nat × LinkedPages) :=
  if m.baseAddr ≤ virtual2physical kernelLink ∧ physicalKernelEnd ≤ m.end then
    (physical2virtualIn checked physicalKernelEnd).map fun start =>
      (physicalKernelEnd, { a with start := start })
  else if physicalKernelEnd ≤ m.baseAddr then
    (alignUpIn checked m.baseAddr).map fun start => (start, a)
  else none

/-- `end_virtual` and `high_mem_start`. -/
def endVirtual (m : MemoryMap) : Option (Nat × Nat) :=
  let endPhysical := alignDown m.end page4K
  if virtual2physical kernelEnd ≤ endPhysical then some (kernelEnd, kernelEnd)
  else (physical2virtualIn checked endPhysical).map fun end_ => (end_, 0)

/-- The rest of the loop's body: the pages of the region become free, and nothing is looked at after
a region that reaches `KERNEL_END`. -/
def useRegion (startVirtual endVirtual highMemStart : Nat) (a : LinkedPages) :
    Option (ForInStep LinkedPages) :=
  if startVirtual < endVirtual then do
    let a ← initRange (.ofAddresses startVirtual endVirtual) { a with «end» := endVirtual }
    if highMemStart ≠ 0 then some (.done { a with highMemStart := highMemStart })
    else some (.yield a)
  else some (.yield a)

/-- The body of the loop of `new`. -/
def visitRegion (physicalKernelEnd : Nat) (m : MemoryMap) (a : LinkedPages) :
    Option (ForInStep LinkedPages) :=
  if m.end < extendedOffset then some (.yield a)
  else if m.memType ≠ .available then some (.yield a)
  else do
    let (startPhysical, a) ← startPhysical checked physicalKernelEnd m a
    let (endVirtual, highMemStart) ← endVirtual checked m
    let startVirtual ← physical2virtualIn checked startPhysical
    useRegion startVirtual endVirtual highMemStart a

/-- The loop of `new`. -/
def visitRegions (checked : Bool) (physicalKernelEnd : Nat) :
    List MemoryMap → LinkedPages → Option LinkedPages
  | [], a => some a
  | m :: rest, a => do
    match ← visitRegion checked physicalKernelEnd m a with
    | .done a => some a
    | .yield a => visitRegions checked physicalKernelEnd rest a

/-- `PhysicalPageAllocator::new`, over the memory as it is. -/
def new (info : BootInfo) (memory : PhysicalMemory) : Option LinkedPages := do
  let physicalKernelEnd ← info.physicalKernelEnd
  visitRegions checked physicalKernelEnd info.memoryMaps (blank memory)

end LinkedPages

end Emerald.MemoryManagement
