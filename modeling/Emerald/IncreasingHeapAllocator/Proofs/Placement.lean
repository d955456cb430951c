
import Emerald.IncreasingHeapAllocator.Proofs.HeapPartition
import Emerald.Misc.Tiling

/-!
# Where allocations are placed

The block that `alloc` takes for a layout has room for the info and the payload at an aligned
pointer, whatever the address of the free block was. It stays the block of the allocation until
`dealloc` puts exactly this block back into the free list.
-/

namespace Emerald.IncreasingHeapAllocator

open MemoryManagement (page4K kernelHeapBase PageAllocator)

variable {ptr : Nat} {layout : Layout}

section
variable {π : Type}

/-- The byte is in a block of the free list. -/
def HeapAllocator.Free (s : HeapAllocator π) (x : Nat) : Prop :=
  ∃ blocks, s.debugFreeBlocks = some blocks ∧ ∃ b ∈ blocks, b.1 ≤ x ∧ x < b.1 + b.2

/-- An allocation, and the block that the info in front of its pointer describes. The info and the
payload are in the block, and no free block or block of another allocation overlaps it. -/
structure Placed (s : HeapAllocator π) (others : List (Nat × Layout)) (ptr : Nat)
    (layout : Layout) : Prop where
  aligned : layout.align ∣ ptr
  magic : AllocatedHeapBlockInfo.magic s.memory (ptr - kernelHeapBlockInfoSize) = heapMagic
  info : (allocatedBlock s.memory ptr).1 + kernelHeapBlockInfoSize ≤ ptr
  payload : ptr + layout.size ≤ (allocatedBlock s.memory ptr).1 + (allocatedBlock s.memory ptr).2
  free : ∃ blocks, s.debugFreeBlocks = some blocks ∧
    ∀ b ∈ blocks, Apart Prod.fst Prod.snd b (allocatedBlock s.memory ptr)
  live : ∀ a ∈ others,
    Apart Prod.fst Prod.snd (allocatedBlock s.memory a.1) (allocatedBlock s.memory ptr)

/-- `dealloc` adds exactly the bytes of a block to the free ones. -/
def Recovers (s : HeapAllocator π) (ptr : Nat) (layout : Layout) (block : Nat × Nat) : Prop :=
  ∃ t, s.dealloc ptr layout = some t ∧
    ∀ x, t.Free x ↔ s.Free x ∨ (block.1 ≤ x ∧ x < block.1 + block.2)

variable (pageSize : Nat) (allocatePages : π → Nat → Option (Nat × π))

/-- The states after an allocation, as long as it is not deallocated. -/
abbrev Heap.Later (start : Heap π) (ptr : Nat) (layout : Layout) (h : Heap π) : Prop :=
  Reachable (fun h c h' => h.step pageSize allocatePages c = some h')
    (fun h c => h.Allowed c ∧ c ≠ .dealloc ptr layout) (fun h => h = start) h

variable {pageSize allocatePages} {s t : HeapAllocator π} {live : List (Nat × Layout)}
  {blocks : List (Nat × Nat)}

theorem Arena.debugFreeBlocks (arena : Arena allocatePages s live blocks) :
    s.debugFreeBlocks = some blocks := by
  rw [HeapAllocator.debugFreeBlocks, arena.list.iterFreeBlocks arena.starts_below, Option.map_some,
    List.map_map]
  congr 1
  refine (List.map_congr_left ?_).trans (List.map_id blocks)
  intro b mem
  exact Prod.ext rfl (arena.list.sizes b mem)

theorem Arena.free_iff (arena : Arena allocatePages s live blocks) (x : Nat) :
    s.Free x ↔ 0 < cover Prod.fst Prod.snd x blocks := by
  rw [cover_pos_iff]
  constructor
  · intro free
    obtain ⟨blocks', listed, inside⟩ := free
    cases Option.some.inj (arena.debugFreeBlocks.symm.trans listed)
    exact inside
  · intro inside
    exact ⟨blocks, arena.debugFreeBlocks, inside⟩

/-- A new allocation is apart from everything else. -/
theorem Arena.placed (arena : Arena allocatePages s ((ptr, layout) :: live) blocks) :
    Placed s live ptr layout := by
  have here := arena.allocated (ptr, layout) List.mem_cons_self
  have large := here.positive
  refine ⟨here.aligned, here.magic, here.info, here.room, ⟨blocks, arena.debugFreeBlocks, ?_⟩, ?_⟩
  · intro b free
    exact arena.apart (List.mem_map_of_mem List.mem_cons_self) free
  · intro a mem
    have others := arena.allocated a (List.mem_cons_of_mem _ mem)
    have parted : Partitions Prod.fst Prod.snd s.heapStart (s.heapStart + s.totalHeapSize)
        (allocatedBlock s.memory ptr :: (blocks ++ allocatedBlocks s.memory live)) :=
      arena.partition.perm List.perm_middle
    have apart := parted.apart (List.mem_append_right _ (List.mem_map_of_mem mem))
      (Nat.lt_of_le_of_lt (Nat.zero_le _) large)
      (Nat.lt_of_le_of_lt (Nat.zero_le _) others.positive)
    exact apart.symm

theorem Arena.recovers (arena : Arena allocatePages s live blocks) (mem : (ptr, layout) ∈ live) :
    Recovers s ptr layout (allocatedBlock s.memory ptr) := by
  obtain ⟨t, blocks', freed, arena', gains, -⟩ := arena.dealloc mem
  refine ⟨t, freed, ?_⟩
  intro x
  rw [arena'.free_iff, arena.free_iff, gains.covers, cover_cons]
  split
  · rename_i inside
    exact ⟨fun _ => .inr inside, fun _ => Nat.succ_pos _⟩
  · rename_i outside
    exact ⟨.inl, fun either => either.resolve_right outside⟩

/-- Every call but its `dealloc` leaves an allocation where it is. -/
theorem Heap.block_step (provider : Adjacent pageSize allocatePages) {block : Nat × Nat}
    (h : Heap π) (c : Call) (h' : Heap π)
    (before : (∃ blocks, Arena allocatePages h.allocator h.live blocks) ∧
      (ptr, layout) ∈ h.live ∧ allocatedBlock h.allocator.memory ptr = block)
    (guarded : h.Allowed c ∧ c ≠ .dealloc ptr layout)
    (taken : h.step pageSize allocatePages c = some h') :
    (∃ blocks, Arena allocatePages h'.allocator h'.live blocks) ∧
      (ptr, layout) ∈ h'.live ∧ allocatedBlock h'.allocator.memory ptr = block := by
  obtain ⟨arena, mem, here⟩ := before
  obtain ⟨allowed, other⟩ := guarded
  refine ⟨Heap.arena_step provider h c h' arena allowed taken, ?_⟩
  obtain ⟨blocks, arena⟩ := arena
  -- the list of blocks is kept, and with it the block at the place of this allocation
  have kept : ∀ {m : HeapMemory} {some : List (Nat × Layout)}, (ptr, layout) ∈ some →
      allocatedBlocks m some = allocatedBlocks h.allocator.memory some →
      allocatedBlock m ptr = block := by
    intro m some still same
    exact (List.map_inj_left.mp same (ptr, layout) still).trans here
  cases c with
  | alloc size =>
    simp only [Heap.step, bind_eq_some, Option.some.injEq] at taken
    obtain ⟨⟨new, allocator⟩, allocated, rfl⟩ := taken
    obtain ⟨nonzero, same, -⟩ := arena.alloc provider allocated
    simp only [if_neg nonzero]
    exact ⟨List.mem_cons_of_mem _ mem, kept mem same⟩
  | dealloc freed size =>
    obtain ⟨allocator, -, returned, -, -, same, -⟩ := arena.dealloc allowed
    simp only [Heap.step, returned, some_bind, Option.some.injEq] at taken
    subst taken
    have ne : (ptr, layout) ≠ (freed, size) := by
      intro equal
      cases equal
      exact other rfl
    have still := (List.mem_erase_of_ne ne).mpr mem
    exact ⟨still, kept still same⟩
  | store address word =>
    obtain ⟨-, a, inside, low, high⟩ := allowed
    cases taken
    exact ⟨mem, kept mem (arena.store inside low high).2⟩

/-- Every allocation of every run is placed, and is recovered by its `dealloc`, at any time. -/
theorem placed_of_alloc (provider : Adjacent pageSize allocatePages) (h : Heap π)
    (reached : h.Reached pageSize allocatePages) (layout : Layout) (ptr : Nat)
    (allocated : h.allocator.alloc pageSize allocatePages layout = some (ptr, t)) :
    Placed t h.live ptr layout ∧
      ∀ h', Heap.Later pageSize allocatePages ⟨t, (ptr, layout) :: h.live⟩ ptr layout h' →
        Recovers h'.allocator ptr layout (allocatedBlock t.memory ptr) := by
  obtain ⟨blocks, arena⟩ := Heap.arena_of_reached provider h reached
  obtain ⟨-, -, blocks', arena'⟩ := arena.alloc provider allocated
  refine ⟨arena'.placed, ?_⟩
  intro h' later
  have still : (∃ blocks, Arena allocatePages h'.allocator h'.live blocks) ∧
      (ptr, layout) ∈ h'.live ∧
      allocatedBlock h'.allocator.memory ptr = allocatedBlock t.memory ptr := by
    refine Reachable.invariant ?_ (Heap.block_step provider) h' later
    intro start isStart
    subst isStart
    exact ⟨⟨blocks', arena'⟩, List.mem_cons_self, rfl⟩
  obtain ⟨⟨last, arenaLast⟩, mem, same⟩ := still
  rw [← same]
  exact arenaLast.recovers mem

end

/-- The calls of `someCalls` leave a free block of 144 bytes at the start of the heap, which is too
small for this layout: it is placed behind the live allocation, at the next multiple of 128. -/
theorem placed_kernelHeap :
    ∃ (h : Heap PageAllocator) (t : HeapAllocator PageAllocator) (ptr : Nat),
      h.Reached page4K PageAllocator.allocatePages ∧ h.live.length = 1 ∧
      h.allocator.alloc page4K PageAllocator.allocatePages ⟨200, 128, ⟨7, rfl⟩, by decide⟩ =
        some (ptr, t) ∧ ptr = kernelHeapBase + 0x300 ∧
      Placed t h.live ptr ⟨200, 128, ⟨7, rfl⟩, by decide⟩ := by
  obtain ⟨h, reached, live, result⟩ := Heap.reached_of_run someCalls
    (fun h => h.live.length = 1 ∧ (h.allocator.alloc page4K PageAllocator.allocatePages
      ⟨200, 128, ⟨7, rfl⟩, by decide⟩).map Prod.fst = some (kernelHeapBase + 0x300))
    (by decide +kernel)
  obtain ⟨⟨ptr, t⟩, allocated, place⟩ := Option.map_eq_some_iff.mp result
  exact ⟨h, t, ptr, reached, live, allocated, place,
    (placed_of_alloc adjacent_kernelHeap h reached _ ptr allocated).1⟩

end Emerald.IncreasingHeapAllocator
