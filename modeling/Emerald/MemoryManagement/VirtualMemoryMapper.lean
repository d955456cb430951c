
import Emerald.MemoryManagement.PhysicalPageAllocator
import Emerald.Misc.TableTree

/-!
# The virtual memory mapper

`kernel/src/memory_management/virtual_memory_mapper.rs`: page tables of four levels in physical
memory, mapping and unmapping ranges page by page, and the walk that frees the memory of a process.
Huge pages are disabled in the source (`can_map_2mb_page` is `false`). `none` is a panic.
-/

namespace Emerald.MemoryManagement

open PhysicalPageAllocator (allocZeroed free)

def ptePresent : BitVec 64 := 0x1#64
def pteWritable : BitVec 64 := 0x2#64
def pteUser : BitVec 64 := 0x4#64
def pteWritethrough : BitVec 64 := 0x8#64
def pteNotCacheable : BitVec 64 := 0x10#64
def pteHugePage : BitVec 64 := 0x80#64

def addrMask : BitVec 64 := 0x00000000FFFFF000#64

/-- The flags a caller can ask for: the public constants of the module `flags`. -/
structure PageFlags where
  writable : Bool
  user : Bool
  writethrough : Bool
  notCacheable : Bool
  deriving DecidableEq

def PageFlags.bits (flags : PageFlags) : BitVec 64 :=
  (if flags.writable then pteWritable else 0#64) ||| (if flags.user then pteUser else 0#64) |||
    (if flags.writethrough then pteWritethrough else 0#64) |||
    (if flags.notCacheable then pteNotCacheable else 0#64)

def kernelL4Index : Nat := 0x1FF
def kernelL3IndexStart : Nat := 0x1FE
def kernelL3ProcessIndexStart : Nat := 0
def kernelL3ProcessIndexEnd : Nat := kernelL3IndexStart - 1
def kernelProcessVirtualAddressStart : Nat := 0xFFFFFF8000000000
def numUserL4Indexes : Nat := kernelL4Index
def maxUserVirtualAddress : Nat := 0xFFFFFF7FFFFFF000

def processKernelStackBase : Nat := kernelProcessVirtualAddressStart + page4K
def processKernelStackSize : Nat := page4K * 64

/-- `get_l4`: bits 39 to 47. -/
def getL4 (addr : Nat) : Nat := addr / 2 ^ 39 % 512

/-- `get_l3`: bits 30 to 38. -/
def getL3 (addr : Nat) : Nat := addr / 2 ^ 30 % 512

/-- `get_l2`: bits 21 to 29. -/
def getL2 (addr : Nat) : Nat := addr / 2 ^ 21 % 512

/-- `get_l1`: bits 12 to 20. -/
def getL1 (addr : Nat) : Nat := addr / 2 ^ 12 % 512

structure VirtualMemoryMapEntry where
  virtualAddress : Nat
  physicalAddress : Option Nat
  size : Nat
  flags : PageFlags
  deriving DecidableEq

def isPresent (entry : BitVec 64) : Bool := entry &&& ptePresent ≠ 0#64

/-- `PageDirectoryTablePtr::from_entry`. -/
def tableOf (entry : BitVec 64) : Nat := (entry &&& addrMask).toNat

/-- `PageDirectoryTablePtr::alloc_new`: the physical address of a zeroed table. -/
def allocTable (p : Physical) : Option (Nat × Physical) := do
  let (page, p) ← allocZeroed p
  some (virtual2physical page, p)

namespace PhysicalMemory

/-- All 512 entries of a table copied to another one. -/
def copyEntries (memory : PhysicalMemory) (source target : Nat) : PhysicalMemory :=
  fun a i => if a = target ∧ i < 512 then memory source i else memory a i

/-- The entries from `first` to `last` of a table set to zero. -/
def clearEntries (memory : PhysicalMemory) (table first last : Nat) : PhysicalMemory :=
  fun a i => if a = table ∧ first ≤ i ∧ i ≤ last then 0#64 else memory a i

end PhysicalMemory

def Physical.write (p : Physical) (table index : Nat) (entry : BitVec 64) : Physical :=
  { p with memory := p.memory.write table index entry }

structure VirtualMemoryMapper where
  pageMapL4 : Nat
  isUser : Bool
  deriving DecidableEq

namespace VirtualMemoryMapper

/-- `VirtualMemoryMapper::new`. -/
def new (p : Physical) : Option (VirtualMemoryMapper × Physical) := do
  let (table, p) ← allocTable p
  some (⟨table, false⟩, p)

/-! ## `map` -/

/-- The entry, made to lead to a new table if it leads to none. -/
def ensureEntry (table index : Nat) (p : Physical) : Option (BitVec 64 × Physical) :=
  if isPresent (p.memory table index) then some (p.memory table index, p)
  else do
    let (next, p) ← allocTable p
    some ((BitVec.ofNat 64 next &&& addrMask) ||| ptePresent, p)

/-- The body of the loop in `map` for one of the levels 4, 3 and 2: make sure the entry leads to a
table, add the flags to it, and go to that table. -/
def mapLevel (flags : PageFlags) (table index : Nat) (p : Physical) : Option (Nat × Physical) := do
  let (entry, p) ← ensureEntry table index p
  let entry := entry ||| flags.bits
  some (tableOf entry, p.write table index entry)

/-- The physical page a virtual one is mapped to: the given one or a new one. -/
def pageToMap (physicalAddress : Option Nat) (p : Physical) : Option (Nat × Physical) :=
  match physicalAddress with
  | some address => some (address, p)
  | none => allocTable p

/-- The entry of level 1. -/
def leafEntry (address : Nat) (flags : PageFlags) : BitVec 64 :=
  (BitVec.ofNat 64 address &&& addrMask) ||| flags.bits ||| ptePresent

/-- The loop of `map` for one page. -/
def mapPage (root : Nat) (flags : PageFlags) (virtualAddress : Nat) (physicalAddress : Option Nat)
    (p : Physical) : Option Physical := do
  let (address, p) ← pageToMap physicalAddress p
  let (table, p) ← mapLevel flags root (getL4 virtualAddress) p
  let (table, p) ← mapLevel flags table (getL3 virtualAddress) p
  let (table, p) ← mapLevel flags table (getL2 virtualAddress) p
  some (p.write table (getL1 virtualAddress) (leafEntry address flags))

/-- The loop of `map` over the given number of pages. -/
def mapPages (root : Nat) (flags : PageFlags) :
    Nat → Nat → Option Nat → Physical → Option Physical
  | 0, _, _, p => some p
  | pages + 1, virtualAddress, physicalAddress, p => do
    let p ← mapPage root flags virtualAddress physicalAddress p
    mapPages root flags pages (wrapAdd virtualAddress page4K)
      (physicalAddress.map (wrapAdd · page4K)) p

/-- The start of the pages a given physical address and the virtual range stand for. -/
def alignPhysical (physicalAddress : Option Nat) (requestedSize size : Nat) :
    Option (Option Nat) :=
  match physicalAddress with
  | none => some none
  | some address => do
    let (alignedStart, physicalSize, _) ← alignRange address requestedSize
    if physicalSize = size then some (some alignedStart) else none

/-- The assertions `map` makes for the address space of a process. -/
def userRangeOk (flags : PageFlags) (virtualAddress size : Nat) : Prop :=
  flags.user = true ∧ getL4 virtualAddress ≠ kernelL4Index ∧
    wrapAdd virtualAddress size ≤ maxUserVirtualAddress

instance (flags : PageFlags) (virtualAddress size : Nat) :
    Decidable (userRangeOk flags virtualAddress size) :=
  inferInstanceAs (Decidable (_ ∧ _ ∧ _))

variable (vm : VirtualMemoryMapper)

/-- `VirtualMemoryMapper::map`. -/
def map (entry : VirtualMemoryMapEntry) (p : Physical) : Option Physical := do
  let (virtualAddress, size, _) ← alignRange entry.virtualAddress entry.size
  if vm.isUser = true → userRangeOk entry.flags virtualAddress size then do
    let physicalAddress ← alignPhysical entry.physicalAddress entry.size size
    mapPages vm.pageMapL4 entry.flags (size / page4K) virtualAddress physicalAddress p
  else none

/-! ## `unmap` -/

/-- The body of the loop in `unmap` for one of the levels 4, 3 and 2: remove the flags from the
entry and go to the table it leads to. -/
def unmapLevel (flags : PageFlags) (table index : Nat) (p : Physical) : Option (Nat × Physical) :=
  if isPresent (p.memory table index) then
    let entry := p.memory table index &&& ~~~flags.bits
    some (tableOf entry, p.write table index entry)
  else none

/-- `PageDirectoryTablePtr::free` of the page an entry leads to. -/
def freeEntry (entry : BitVec 64) (p : Physical) : Option Physical :=
  free (physical2virtual (tableOf entry)) p

/-- The page an entry of level 1 leads to, freed if `map` has allocated it. -/
def releasePage (isAllocated : Bool) (entry : BitVec 64) (p : Physical) : Option Physical :=
  if isAllocated then freeEntry entry p else some p

/-- The loop of `unmap` for one page. -/
def unmapPage (root : Nat) (flags : PageFlags) (isAllocated : Bool) (virtualAddress : Nat)
    (p : Physical) : Option Physical := do
  let (table, p) ← unmapLevel flags root (getL4 virtualAddress) p
  let (table, p) ← unmapLevel flags table (getL3 virtualAddress) p
  let (table, p) ← unmapLevel flags table (getL2 virtualAddress) p
  let entry := p.memory table (getL1 virtualAddress)
  if isPresent entry then do
    let p ← releasePage isAllocated entry p
    some (p.write table (getL1 virtualAddress) 0#64)
  else none

/-- The loop of `unmap` over the given number of pages. -/
def unmapPages (root : Nat) (flags : PageFlags) (isAllocated : Bool) :
    Nat → Nat → Physical → Option Physical
  | 0, _, p => some p
  | pages + 1, virtualAddress, p => do
    let p ← unmapPage root flags isAllocated virtualAddress p
    unmapPages root flags isAllocated pages (wrapAdd virtualAddress page4K) p

/-- `VirtualMemoryMapper::unmap`. -/
def unmap (entry : VirtualMemoryMapEntry) (isAllocated : Bool) (p : Physical) : Option Physical :=
  if entry.physicalAddress = none then do
    let (virtualAddress, size, _) ← alignRange entry.virtualAddress entry.size
    unmapPages vm.pageMapL4 entry.flags isAllocated (size / page4K) virtualAddress p
  else none

/-! ## `is_address_mapped` -/

/-- `is_address_mapped`: the entries on the way to the address are present, up to a huge page. -/
def isAddressMapped (memory : PhysicalMemory) (addr : Nat) : Bool :=
  let pageMapL4Entry := memory vm.pageMapL4 (getL4 addr)
  let pageDirectoryPointerEntry := memory (tableOf pageMapL4Entry) (getL3 addr)
  let pageDirectoryEntry := memory (tableOf pageDirectoryPointerEntry) (getL2 addr)
  let pageTableEntry := memory (tableOf pageDirectoryEntry) (getL1 addr)
  isPresent pageMapL4Entry && isPresent pageDirectoryPointerEntry &&
    isPresent pageDirectoryEntry &&
    (pageDirectoryEntry &&& pteHugePage != 0#64 || isPresent pageTableEntry)

/-! ## The kernel's mapper -/

/-- What `new_kernel_vm` maps; `rodataEnd` is the end of the kernel's read-only sections. -/
def kernelVmEntries (rodataEnd : Nat) : List VirtualMemoryMapEntry :=
  let dataStart := alignUp rodataEnd page4K
  [⟨kernelBase, some 0, extendedOffset, ⟨true, false, false, false⟩⟩,
    ⟨kernelLink, some (virtual2physical kernelLink),
      virtual2physical dataStart - virtual2physical kernelLink, ⟨false, false, false, false⟩⟩,
    ⟨dataStart, some (virtual2physical dataStart),
      kernelMappedSize - virtual2physical dataStart, ⟨true, false, false, false⟩⟩]

/-- The loop of `new_kernel_vm` over its entries. -/
def mapEntries (vm : VirtualMemoryMapper) :
    List VirtualMemoryMapEntry → Physical → Option Physical
  | [], p => some p
  | entry :: rest, p => do
    let p ← vm.map entry p
    mapEntries vm rest p

/-- The page below the kernel's stack. -/
def stackGuardEntry (stackGuardPage : Nat) : VirtualMemoryMapEntry :=
  ⟨stackGuardPage, none, page4K, ⟨false, false, false, false⟩⟩

/-- `new_kernel_vm`: the low memory and the kernel are mapped, the page below its stack is not. -/
def newKernelVm (rodataEnd stackGuardPage : Nat) (p : Physical) :
    Option (VirtualMemoryMapper × Physical) := do
  let (vm, p) ← new p
  let p ← vm.mapEntries (kernelVmEntries rodataEnd) p
  let p ← vm.unmap (stackGuardEntry stackGuardPage) false p
  some (vm, p)

variable (kernel : VirtualMemoryMapper)

/-- `map_kernel`. -/
def mapKernel (entry : VirtualMemoryMapEntry) (p : Physical) : Option Physical :=
  if kernelBase ≤ entry.virtualAddress then kernel.map entry p else none

/-- `unmap_kernel`. -/
def unmapKernel (entry : VirtualMemoryMapEntry) (isAllocated : Bool)
    (p : Physical) : Option Physical :=
  if kernelBase ≤ entry.virtualAddress then kernel.unmap entry isAllocated p else none

/-! ## The address space of a process -/

/-- `clone_kernel_mem` and `is_user = true`, as `clone_current_vm_as_user` does it: a new table of
level 4 whose last entry leads to a copy of the kernel's table of level 3. -/
def cloneAsUser (p : Physical) : Option (VirtualMemoryMapper × Physical) := do
  let kernelTable := tableOf (p.memory vm.pageMapL4 kernelL4Index)
  let (newVm, p) ← new p
  let (copy, p) ← allocTable p
  let p := { p with memory := p.memory.copyEntries kernelTable copy }
  some ({ newVm with isUser := true },
    p.write newVm.pageMapL4 kernelL4Index (BitVec.ofNat 64 copy ||| ptePresent ||| pteWritable))

/-- `get_current_vm`: the mapper whose table of level 4 is in CR3. -/
def getCurrentVm (cr3 : Nat) : VirtualMemoryMapper :=
  ⟨tableOf (BitVec.ofNat 64 cr3), decide (cr3 ≠ kernel.pageMapL4)⟩

/-- `clone_current_vm_as_user`. Interrupts are disabled around it, so nothing comes in between. -/
def cloneCurrentVmAsUser (cr3 : Nat) (p : Physical) : Option (VirtualMemoryMapper × Physical) :=
  (getCurrentVm kernel cr3).cloneAsUser p

/-- The kernel stack of a process. -/
def processKernelStackEntry : VirtualMemoryMapEntry where
  virtualAddress := processKernelStackBase
  physicalAddress := none
  size := processKernelStackSize
  flags := ⟨true, false, false, false⟩

/-- `add_process_specific_mappings`: the entries for the process in the kernel's table of level 3
are cleared, and its kernel stack is mapped there. -/
def addProcessSpecificMappings (p : Physical) : Option Physical :=
  let kernelTable := tableOf (p.memory vm.pageMapL4 kernelL4Index)
  let cleared :=
    p.memory.clearEntries kernelTable kernelL3ProcessIndexStart kernelL3ProcessIndexEnd
  { vm with isUser := false }.map processKernelStackEntry { p with memory := cleared }

/-! ## Teardown -/

/-- What the walk over the tables does besides changing memory: the entries of level 4 it follows
to a table, and the physical pages it gives to `free`. -/
structure Teardown where
  followed : List (BitVec 64)
  freed : List Nat
  physical : Physical

/-- The closure `free_page` of `unmap_process_memory`. -/
def freePage (table index : Nat) (t : Teardown) : Option Teardown :=
  let entry := t.physical.memory table index
  if entry &&& pteHugePage = 0#64 then do
    let p ← freeEntry entry t.physical
    some { t with freed := t.freed ++ [tableOf entry], physical := p.write table index 0#64 }
  else none

/-- `filter(present)`: the body is run on an entry that is present. -/
def ifPresent (body : Nat → Nat → Teardown → Option Teardown) (table index : Nat) (t : Teardown) :
    Option Teardown :=
  if isPresent (t.physical.memory table index) then body table index t else some t

/-- The body run on each entry of a table that is present. -/
def forPresent (body : Nat → Nat → Teardown → Option Teardown) (table : Nat) :
    List Nat → Teardown → Option Teardown
  | [], t => some t
  | index :: rest, t => do
    let t ← ifPresent body table index t
    forPresent body table rest t

/-- `handle_2mb_pages`. -/
def handle2mbPages (table index : Nat) (t : Teardown) : Option Teardown :=
  let entry := t.physical.memory table index
  if entry &&& pteHugePage ≠ 0#64 then freePage table index t
  else forPresent freePage (tableOf entry) (List.range 512) t

/-- The walk below an entry of level 3. -/
def walkL3 (table index : Nat) (t : Teardown) : Option Teardown :=
  forPresent handle2mbPages (tableOf (t.physical.memory table index)) (List.range 512) t

/-- The indices of the table of the `k`-th entry of level 4 that lie in the window which `skip`
and `take` cut out of the tables one after another. -/
def l3Window (skip take k : Nat) : List Nat :=
  (List.range 512).filter (fun i => skip ≤ 512 * k + i ∧ 512 * k + i < skip + take)

/-- The walk below the entries of level 4. There is no check that they are present. -/
def walkL4 (root l3Skip l3Take l4Start : Nat) : List Nat → Teardown → Option Teardown
  | [], t => some t
  | k :: rest, t => do
    let entry := t.physical.memory root (l4Start + k)
    let t ← forPresent walkL3 (tableOf entry) (l3Window l3Skip l3Take k)
      { t with followed := t.followed ++ [entry] }
    walkL4 root l3Skip l3Take l4Start rest t

/-- `do_for_ranges_entries` for inclusive ranges, with the closure `free_page`. The iterator stops
once `take` has its entries, so no later table is looked at. -/
def doForRangesEntries (root l4Start l4End l3Start l3End : Nat) (t : Teardown) : Option Teardown :=
  let l4Take := l4End - l4Start + 1
  let l3Take := l3End - l3Start + 1
  walkL4 root l3Start l3Take l4Start
    ((List.range l4Take).filter (fun k => 512 * k < l3Start + l3Take)) t

/-- `do_for_every_user_entry`. -/
def doForEveryUserEntry (root : Nat) (t : Teardown) : Option Teardown :=
  doForRangesEntries root 0 (numUserL4Indexes - 1) 0 0x1FF t

/-- `do_for_kernel_process_entry`. -/
def doForKernelProcessEntry (root : Nat) (t : Teardown) : Option Teardown :=
  doForRangesEntries root kernelL4Index kernelL4Index kernelL3ProcessIndexStart
    kernelL3ProcessIndexEnd t

/-- `unmap_process_memory`. -/
def unmapProcessMemory (p : Physical) : Option Teardown := do
  let t ← doForEveryUserEntry vm.pageMapL4 ⟨[], [], p⟩
  doForKernelProcessEntry vm.pageMapL4 t

end VirtualMemoryMapper

end Emerald.MemoryManagement
