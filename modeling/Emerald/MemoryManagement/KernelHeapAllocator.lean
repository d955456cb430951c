
import Emerald.MemoryManagement.MemoryLayout

/-!
# The pages of the kernel heap

The page provider of `kernel/src/memory_management/kernel_heap_allocator.rs`: one region of virtual
memory that is mapped from its start on. The mapping itself is that of the virtual memory mapper.
-/

namespace Emerald.MemoryManagement

/-- `PageAllocator`. It is made with `heap_start` at the base of the kernel heap, and the mapped
pages stay within its size. -/
structure PageAllocator where
  heapStart : Nat
  mappedPages : Nat
  base : heapStart = kernelHeapBase
  fits : mappedPages * page4K ≤ kernelHeapSize

/-- `PageAllocator::new`. -/
def PageAllocator.new : PageAllocator := ⟨kernelHeapBase, 0, rfl, by decide⟩

/-- `allocate_pages`; `none` is also the failed assertion that there are pages to map. -/
def PageAllocator.allocatePages (p : PageAllocator) (pages : Nat) : Option (Nat × PageAllocator) :=
  if fits : (p.mappedPages + pages) * page4K ≤ kernelHeapSize then
    if 0 < pages then
      some (p.heapStart + p.mappedPages * page4K,
        ⟨p.heapStart, p.mappedPages + pages, p.base, fits⟩)
    else none
  else none

end Emerald.MemoryManagement
