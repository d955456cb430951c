
import Emerald.Process.Syscalls

/-!
# The heap of a process

`add_to_heap` in `kernel/src/process/mod.rs` and `sys_inc_heap` in
`kernel/src/process/syscalls/mod.rs`. The heap starts empty and may grow to `heap_max`; its pages
are mapped and unmapped as its size changes. `none` is a panic: an assertion, an overflow, or no
free page left.
-/

namespace Emerald.Process

open MemoryManagement

/-- `DEFAULT_MAX_HEAP_SIZE`. -/
def defaultMaxHeapSize : Nat := 2 ^ 30

/-- The fields of a process that `add_to_heap` uses, and the memory its tables are in. -/
structure ProcessHeap where
  vm : VirtualMemoryMapper
  heapStart : Nat
  heapSize : Nat
  heapMax : Nat
  physical : Physical

/-- `PTE_USER | PTE_WRITABLE`. -/
def heapFlags : PageFlags := ⟨true, true, false, false⟩

/-- What `add_to_heap` gives to `map` and `unmap`. -/
def heapEntry (virtualAddress size : Nat) : VirtualMemoryMapEntry :=
  ⟨virtualAddress, none, size, heapFlags⟩

namespace ProcessHeap

variable (process : ProcessHeap)

/-- `self.heap_start + self.heap_size`. -/
def heapEnd : Option Nat :=
  if process.heapStart + process.heapSize < 2 ^ 64 then
    some (process.heapStart + process.heapSize)
  else none

/-- `add_to_heap`. The increment is an `isize`, and so is the new size. -/
def addToHeap (increment : BitVec 64) : Option (Option Nat × ProcessHeap) :=
  if increment.toInt = 0 then do
    let oldEnd ← process.heapEnd
    some (some oldEnd, process)
  else if isAligned increment.toInt.natAbs page4K then
    let newSize := (process.heapSize : Int) + increment.toInt
    -- the sum overflows: a size is never so small that it can do so the other way
    if 2 ^ 63 ≤ newSize then none
    else if newSize < 0 ∨ process.heapMax < newSize.toNat then some (none, process)
    else do
      let oldEnd ← process.heapEnd
      let process := { process with heapSize := newSize.toNat }
      if 0 < increment.toInt then do
        let physical ←
          process.vm.map (heapEntry oldEnd increment.toInt.toNat) process.physical
        some (some oldEnd, { process with physical := physical })
      else do
        let newEnd := oldEnd - increment.toInt.natAbs
        let physical ←
          process.vm.unmap (heapEntry newEnd increment.toInt.natAbs) true process.physical
        some (some oldEnd, { process with physical := physical })
  else none

/-- `sys_inc_heap`. -/
def sysIncHeap (increment : BitVec 64) : Option (SyscallResult × ProcessHeap) :=
  if isAligned increment.toInt.natAbs page4K then do
    let (oldHeapEnd, process) ← process.addToHeap increment
    match oldHeapEnd with
    | some oldHeapEnd => some (.ok (BitVec.ofNat 64 oldHeapEnd), process)
    | none => some (.error .heapRangesExceeded, process)
  else some (.error (toArgErr0 .invalidHeapIncrement), process)

end ProcessHeap

end Emerald.Process
