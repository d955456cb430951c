
import Emerald.IncreasingHeapAllocator.Proofs.FreeBlock

/-!
# The arena of the heap

`Arena` is the invariant of the allocator: the free blocks form a `FreeList`, and with the blocks of
the live allocations they partition the heap. The block of an allocation is read from the info in
front of its pointer, so the invariant also says that nothing writes over these infos.
-/

namespace Emerald.IncreasingHeapAllocator

open MemoryManagement (alignUp dvd_alignUp le_alignUp alignUp_of_dvd)
variable {a : Nat} {b : Nat × Nat} {layout : Layout}

/-! ## Sizes and offsets -/

/-- A power of two divides 16 or is a multiple of it. -/
theorem power_cases (power : ∃ k, a = 2 ^ k) : 16 ∣ a ∨ a < 16 ∧ a ∣ 16 := by
  obtain ⟨k, rfl⟩ := power
  rcases lt_or_ge k 4 with small | large
  · exact .inr ⟨Nat.pow_lt_pow_right (by decide) small, Nat.pow_dvd_pow 2 (le_of_lt small)⟩
  · exact .inl (Nat.pow_dvd_pow 2 large)

theorem power_pos (power : ∃ k, a = 2 ^ k) : 0 < a := by
  obtain ⟨k, rfl⟩ := power
  exact Nat.two_pow_pos k

theorem dvd_max_align (power : ∃ k, a = 2 ^ k) : 16 ∣ max a 16 := by
  rcases power_cases power with dvd | ⟨small, -⟩
  · rcases le_total a 16 with le | le
    · rw [max_eq_right le]
    · rw [max_eq_left le]
      exact dvd
  · rw [max_eq_right (le_of_lt small)]

theorem fromSizeAlign_spec {size align : Nat} {power : ∃ k, align = 2 ^ k}
    (made : Layout.fromSizeAlign size align power = some layout) :
    layout.size = size ∧ layout.align = align := by
  unfold Layout.fromSizeAlign at made
  split at made
  · cases made
    exact ⟨rfl, rfl⟩
  · simp at made

/-- The whole block has room for the layout at its offset, and both are multiples of 16. -/
theorem wholeBlock_spec {bytes offset : Nat} (whole : wholeBlock layout = some (bytes, offset)) :
    16 ∣ bytes ∧ 16 ∣ offset ∧ kernelHeapBlockInfoSize ≤ offset ∧ offset + layout.size ≤ bytes := by
  simp only [wholeBlock, Layout.extend, Layout.blockInfo, bind_eq_some,
    Option.map_eq_some_iff] at whole
  obtain ⟨aligned, alignedIs, ⟨joined, _⟩, ⟨_, joinedIs, rfl, rfl⟩, rfl, rfl⟩ := whole
  obtain ⟨sizeIs, alignIs⟩ := fromSizeAlign_spec alignedIs
  obtain ⟨joinedSize, joinedAlign⟩ := fromSizeAlign_spec joinedIs
  have dvd : 16 ∣ aligned.align := alignIs ▸ dvd_max_align layout.power
  have pos := power_pos aligned.power
  have atLeast := le_alignUp kernelHeapBlockInfoSize pos
  have offsetIs : kernelHeapBlockInfoSize + (alignUp kernelHeapBlockInfoSize aligned.align -
      kernelHeapBlockInfoSize) = alignUp kernelHeapBlockInfoSize aligned.align := by omega
  rw [offsetIs] at joinedSize ⊢
  have padded := le_alignUp joined.size (power_pos joined.power)
  refine ⟨?_, dvd_trans dvd (dvd_alignUp _ _), atLeast, ?_⟩
  · refine dvd_trans ?_ (dvd_alignUp _ _)
    rw [joinedAlign, Nat.max_comm]
    exact dvd_max_align aligned.power
  · rw [← sizeIs, ← joinedSize]
    exact padded

/-- The offset of an allocation in its block is a multiple of 16. -/
theorem dvd_blockOffset {base : Nat} (aligned : 16 ∣ base) :
    16 ∣ HeapAllocator.blockOffset base layout.align := by
  have pos := power_pos layout.power
  unfold HeapAllocator.blockOffset
  rcases power_cases layout.power with dvd | ⟨small, divides⟩
  · have step : 16 ∣ alignUp base layout.align - base :=
      Nat.dvd_sub (Nat.dvd_trans dvd (dvd_alignUp _ _)) aligned
    have large : 16 ∣ max kernelHeapBlockInfoSize layout.align := by
      rcases Nat.le_total kernelHeapBlockInfoSize layout.align with le | le
      · rw [Nat.max_eq_right le]
        exact dvd
      · rw [Nat.max_eq_left le]
        exact ⟨2, rfl⟩
    simp only
    split
    · exact Nat.dvd_add step large
    · exact step
  · have here : alignUp base layout.align = base :=
      alignUp_of_dvd pos (Nat.dvd_trans divides aligned)
    have most : max kernelHeapBlockInfoSize layout.align = 32 :=
      Nat.max_eq_left (by simp only [kernelHeapBlockInfoSize]; omega)
    simp only [here, most, Nat.sub_self]
    exact ⟨2, rfl⟩

/-! ## Allocations -/

/-- The block of an allocation: where its info says that it starts, and its size. -/
def allocatedBlock (memory : HeapMemory) (ptr : Nat) : Nat × Nat :=
  let info := ptr - kernelHeapBlockInfoSize
  (ptr - AllocatedHeapBlockInfo.prePadding memory info, AllocatedHeapBlockInfo.size memory info)

/-- The blocks of some allocations. -/
def allocatedBlocks (memory : HeapMemory) (live : List (Nat × Layout)) : List (Nat × Nat) :=
  live.map fun a => allocatedBlock memory a.1

/-- The info in front of a pointer is that of an allocation for the layout. -/
structure Allocated (memory : HeapMemory) (ptr : Nat) (layout : Layout) : Prop where
  magic : AllocatedHeapBlockInfo.magic memory (ptr - kernelHeapBlockInfoSize) = heapMagic
  info : (allocatedBlock memory ptr).1 + kernelHeapBlockInfoSize ≤ ptr
  room : ptr + layout.size ≤ (allocatedBlock memory ptr).1 + (allocatedBlock memory ptr).2
  whole : ∃ bytes offset, wholeBlock layout = some (bytes, offset) ∧
    bytes ≤ (allocatedBlock memory ptr).2
  start : 16 ∣ (allocatedBlock memory ptr).1
  size : 16 ∣ (allocatedBlock memory ptr).2
  aligned : layout.align ∣ ptr

section
variable {m m' : HeapMemory} {ptr : Nat} {layout : Layout}

/-- An allocation depends only on its info. -/
theorem Allocated.congr (allocated : Allocated m ptr layout)
    (same : ∀ a, (allocatedBlock m ptr).1 ≤ a → a < ptr → m' a = m a) :
    Allocated m' ptr layout ∧ allocatedBlock m' ptr = allocatedBlock m ptr := by
  have info := allocated.info
  simp only [kernelHeapBlockInfoSize] at info
  have magicWord : m' (ptr - 32) = m (ptr - 32) := same _ (by omega) (by omega)
  have sizeWord : m' (ptr - 32 + 8) = m (ptr - 32 + 8) := same _ (by omega) (by omega)
  have paddingWord : m' (ptr - 32 + 16) = m (ptr - 32 + 16) := same _ (by omega) (by omega)
  have block : allocatedBlock m' ptr = allocatedBlock m ptr := by
    simp only [allocatedBlock, AllocatedHeapBlockInfo.prePadding, AllocatedHeapBlockInfo.size,
      kernelHeapBlockInfoSize, sizeWord, paddingWord]
  refine ⟨⟨?_, ?_, ?_, ?_, ?_, ?_, allocated.aligned⟩, block⟩
  · have magic := allocated.magic
    simp only [AllocatedHeapBlockInfo.magic, kernelHeapBlockInfoSize, magicWord] at magic ⊢
    exact magic
  all_goals rw [block]
  · exact allocated.info
  · exact allocated.room
  · exact allocated.whole
  · exact allocated.start
  · exact allocated.size

theorem Allocated.positive (allocated : Allocated m ptr layout) :
    heapFreeBlockSize < (allocatedBlock m ptr).2 := by
  have := allocated.info
  have := allocated.room
  simp only [kernelHeapBlockInfoSize, heapFreeBlockSize] at *
  omega

end

/-! ## The invariant -/

/-- What is assumed of the provider: pages of a power of two of bytes, with room for a header, in
blocks that each start where the last one ends, at an address that is not null. -/
structure Adjacent {π : Type} (pageSize : Nat) (allocatePages : π → Nat → Option (Nat × π)) :
    Prop where
  pages : ∃ k, 5 ≤ k ∧ pageSize = 2 ^ k
  block : ∀ p pages start p', allocatePages p pages = some (start, p') →
    pageSize ∣ start ∧ start ≠ 0 ∧ start + pages * pageSize < 2 ^ 64
  adjacent : ∀ p pages start p' more next p'', allocatePages p pages = some (start, p') →
    allocatePages p' more = some (next, p'') → next = start + pages * pageSize

structure Arena {π : Type} (allocatePages : π → Nat → Option (Nat × π)) (s : HeapAllocator π)
    (live : List (Nat × Layout)) (blocks : List (Nat × Nat)) : Prop where
  list : FreeList s.memory s.freeListAddr blocks
  allocated : ∀ a ∈ live, Allocated s.memory a.1 a.2
  partition : Partitions Prod.fst Prod.snd s.heapStart (s.heapStart + s.totalHeapSize)
    (blocks ++ allocatedBlocks s.memory live)
  nonzero : s.totalHeapSize ≠ 0 → s.heapStart ≠ 0
  below : s.heapStart + s.totalHeapSize < 2 ^ 64
  adjacent : s.totalHeapSize ≠ 0 → ∀ pages start p',
    allocatePages s.pageAllocator pages = some (start, p') → start = s.heapStart + s.totalHeapSize
  freeSize : s.freeSize = (blocks.map Prod.snd).sum
  usedSize : s.usedSize = ((allocatedBlocks s.memory live).map Prod.snd).sum

section
variable {π : Type} {allocatePages : π → Nat → Option (Nat × π)} {s : HeapAllocator π}
  {live : List (Nat × Layout)} {blocks : List (Nat × Nat)} {m : HeapMemory}

/-- A change of some headers writes nothing between them. -/
theorem ChangesOnly.outside {m' : HeapMemory} {node lo hi : Nat}
    (only : ChangesOnly (Headers node blocks) m m')
    (apart : ∀ h, Headers node blocks h → h + heapFreeBlockSize ≤ lo ∨ hi ≤ h) :
    ∀ a, lo ≤ a → a < hi → m' a = m a := by
  intro a low high
  refine only a ?_
  intro h header
  have := apart h header
  omega

section
variable (arena : Arena allocatePages s live blocks)
include arena

/-- Every block of the arena is as large as a header. -/
theorem Arena.large (mem : b ∈ blocks ++ allocatedBlocks s.memory live) :
    heapFreeBlockSize < b.2 := by
  rcases List.mem_append.mp mem with free | used
  · exact (arena.list.shape b free).2.2
  · obtain ⟨a, here, rfl⟩ := List.mem_map.mp used
    exact (arena.allocated a here).positive

theorem Arena.within (mem : b ∈ blocks ++ allocatedBlocks s.memory live) :
    s.heapStart ≤ b.1 ∧ b.1 + b.2 ≤ s.heapStart + s.totalHeapSize :=
  arena.partition.within mem (Nat.lt_of_le_of_lt (Nat.zero_le _) (arena.large mem))

theorem Arena.starts_below : ∀ b ∈ blocks, b.1 < 2 ^ 64 := by
  intro b mem
  have := arena.within (List.mem_append_left _ mem)
  have := arena.below
  omega

/-- An empty heap has no blocks. -/
theorem Arena.empty (zero : s.totalHeapSize = 0) : blocks = [] ∧ live = [] := by
  have none : blocks ++ allocatedBlocks s.memory live = [] := by
    refine List.eq_nil_iff_forall_not_mem.mpr ?_
    intro b mem
    have := arena.within mem
    have := arena.large mem
    omega
  obtain ⟨noBlocks, noLive⟩ := List.append_eq_nil_iff.mp none
  exact ⟨noBlocks, List.map_eq_nil_iff.mp noLive⟩

/-- A free block and the block of an allocation have nothing in common. -/
theorem Arena.apart {c : Nat × Nat} (used : b ∈ allocatedBlocks s.memory live) (free : c ∈ blocks) :
    c.1 + c.2 ≤ b.1 ∨ b.1 + b.2 ≤ c.1 := by
  have largeB := arena.large (List.mem_append_right _ used)
  have largeC := arena.large (List.mem_append_left _ free)
  exact arena.partition.apart_append free used (by omega) (by omega)

/-- Allocations whose blocks are not written. -/
theorem Arena.allocated_congr {kept : List (Nat × Layout)} (subset : kept ⊆ live)
    (same : ∀ b ∈ allocatedBlocks s.memory kept, ∀ a, b.1 ≤ a → a < b.1 + b.2 →
      m a = s.memory a) :
    (∀ a ∈ kept, Allocated m a.1 a.2) ∧
      allocatedBlocks m kept = allocatedBlocks s.memory kept := by
  have each : ∀ a ∈ kept, Allocated m a.1 a.2 ∧
      allocatedBlock m a.1 = allocatedBlock s.memory a.1 := by
    intro a mem
    have here := arena.allocated a (subset mem)
    have room := here.room
    refine here.congr ?_
    intro x low high
    exact same _ (List.mem_map_of_mem mem) x low (by omega)
  refine ⟨fun a mem => (each a mem).1, ?_⟩
  exact List.map_congr_left fun a mem => (each a mem).2

/-- A change of the list writes into no block of an allocation that the new header is not in. -/
theorem Arena.unchanged {node : Nat} (only : ChangesOnly (Headers node blocks) s.memory m)
    (used : b ∈ allocatedBlocks s.memory live)
    (apart : node + heapFreeBlockSize ≤ b.1 ∨ b.1 + b.2 ≤ node) :
    ∀ a, b.1 ≤ a → a < b.1 + b.2 → m a = s.memory a := by
  refine only.outside ?_
  rintro h (rfl | header)
  · exact apart
  · obtain ⟨c, mem, rfl⟩ := List.mem_map.mp header
    have := arena.apart used mem
    have := (arena.list.shape c mem).2.2
    omega

end

end

end Emerald.IncreasingHeapAllocator
