
import Emerald.MemoryManagement.MemoryLayout

/-!
# Layouts

The part of `core::alloc::Layout` that the heap allocator computes the size of a block with. An
alignment is a power of two, and the size rounded up to it fits into `isize`.
`alignUp` and `isAligned` are those of the memory layout: the crate has its own copies of them in
`libraries/increasing_heap_allocator/src/lib.rs`.
-/

namespace Emerald.IncreasingHeapAllocator

open MemoryManagement (alignUp)

structure Layout where
  size : Nat
  align : Nat
  power : ∃ k, align = 2 ^ k
  fits : size + align ≤ 2 ^ 63
  deriving DecidableEq

/-- `AllocatedHeapBlockInfo` is `repr(C, align(16))`: four bytes and two words. -/
def kernelHeapBlockInfoSize : Nat := 32

theorem power_max {a b : Nat} (powerA : ∃ k, a = 2 ^ k) (powerB : ∃ k, b = 2 ^ k) :
    ∃ k, max a b = 2 ^ k := by
  rcases le_total a b with le | le
  · rw [max_eq_right le]
    exact powerB
  · rw [max_eq_left le]
    exact powerA

namespace Layout

/-- `Layout::from_size_align` for a power of two. -/
def fromSizeAlign (size align : Nat) (power : ∃ k, align = 2 ^ k) : Option Layout :=
  if fits : size + align ≤ 2 ^ 63 then some ⟨size, align, power, fits⟩ else none

/-- The layout of `AllocatedHeapBlockInfo`. -/
def blockInfo : Layout := ⟨kernelHeapBlockInfoSize, 16, ⟨4, rfl⟩, by decide⟩

/-- `Layout::align_to`. -/
def alignTo (layout : Layout) (align : Nat) (power : ∃ k, align = 2 ^ k) : Option Layout :=
  fromSizeAlign layout.size (max layout.align align) (power_max layout.power power)

/-- `Layout::extend`: both layouts after one another, and the offset of the second one. -/
def extend (layout next : Layout) : Option (Layout × Nat) :=
  let offset := layout.size + (alignUp layout.size next.align - layout.size)
  (fromSizeAlign (offset + next.size) (max layout.align next.align)
    (power_max layout.power next.power)).map fun whole => (whole, offset)

/-- The size of `Layout::pad_to_align`. -/
def padToAlignSize (layout : Layout) : Nat := alignUp layout.size layout.align

end Layout

/-- The block info followed by the layout, which gets at least the alignment of the info: the size
of the whole block and the offset of the layout in it. -/
def wholeBlock (layout : Layout) : Option (Nat × Nat) := do
  let aligned ← layout.alignTo 16 ⟨4, rfl⟩
  let (whole, offset) ← Layout.blockInfo.extend aligned
  some (whole.padToAlignSize, offset)

end Emerald.IncreasingHeapAllocator
