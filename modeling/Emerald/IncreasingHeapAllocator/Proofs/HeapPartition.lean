
import Emerald.IncreasingHeapAllocator.Proofs.AllocDealloc
import Emerald.MemoryManagement.KernelHeapAllocator
import Emerald.Misc.Reachable

/-!
# The heap over a run

A program allocates, writes into its allocations and deallocates them. In every state it reaches,
the free list is in order and fully merged, and the free blocks partition the heap together with
the blocks of the live allocations.
-/

namespace Emerald.IncreasingHeapAllocator

open MemoryManagement (page4K kernelHeapBase kernelHeapSize PageAllocator)

/-- The allocator, and the live allocations with their layouts. -/
structure Heap (π : Type) where
  allocator : HeapAllocator π
  live : List (Nat × Layout)

inductive Call
  | alloc (layout : Layout)
  | dealloc (ptr : Nat) (layout : Layout)
  | store (address word : Nat)

section
variable {π : Type} (pageSize : Nat) (allocatePages : π → Nat → Option (Nat × π))

/-- One call. A panic has no successor. -/
def Heap.step (h : Heap π) : Call → Option (Heap π)
  | .alloc layout => do
    let (ptr, allocator) ← h.allocator.alloc pageSize allocatePages layout
    some ⟨allocator, if ptr = 0 then h.live else (ptr, layout) :: h.live⟩
  | .dealloc ptr layout => do
    let allocator ← h.allocator.dealloc ptr layout
    some ⟨allocator, h.live.erase (ptr, layout)⟩
  | .store address word =>
    some { h with allocator.memory := h.allocator.memory.write address word }

/-- The rules of `GlobalAlloc`: a pointer is deallocated once, with its own layout, and the program
writes only into live allocations. -/
def Heap.Allowed (h : Heap π) : Call → Prop
  | .alloc _ => True
  | .dealloc ptr layout => (ptr, layout) ∈ h.live
  | .store address _ =>
    8 ∣ address ∧ ∃ a ∈ h.live, a.1 ≤ address ∧ address < a.1 + a.2.size

instance (h : Heap π) (c : Call) : Decidable (h.Allowed c) :=
  match c with
  | .alloc _ => inferInstanceAs (Decidable True)
  | .dealloc ptr layout => inferInstanceAs (Decidable ((ptr, layout) ∈ h.live))
  | .store address _ => inferInstanceAs (Decidable
      (8 ∣ address ∧ ∃ a ∈ h.live, a.1 ≤ address ∧ address < a.1 + a.2.size))

/-- The states reached from a new allocator. -/
abbrev Heap.Reached (h : Heap π) : Prop :=
  Reachable (fun h c h' => h.step pageSize allocatePages c = some h') Heap.Allowed
    (fun h => ∃ p memory, h = ⟨.new p memory, []⟩) h

variable {pageSize allocatePages} {s : HeapAllocator π} {live : List (Nat × Layout)}
  {blocks : List (Nat × Nat)}

theorem arena_new (p : π) (memory : HeapMemory) :
    Arena allocatePages (HeapAllocator.new p memory) [] [] := by
  refine ⟨⟨⟨0, rfl, rfl⟩, by simp, List.Pairwise.nil, by simp⟩, by simp, partitions_nil 0, ?_, ?_,
    ?_, rfl, rfl⟩
  · exact fun grown => absurd rfl grown
  · exact Nat.two_pow_pos 64
  · exact fun grown => absurd rfl grown

/-- The blocks of two allocations have nothing in common. -/
theorem Arena.apart_live (arena : Arena allocatePages s live blocks) {a b : Nat × Layout}
    (memberA : a ∈ live) (memberB : b ∈ live) (ne : a ≠ b) :
    let x := allocatedBlock s.memory a.1
    let y := allocatedBlock s.memory b.1
    x.1 + x.2 ≤ y.1 ∨ y.1 + y.2 ≤ x.1 := by
  have largeA := (arena.allocated a memberA).positive
  have largeB := (arena.allocated b memberB).positive
  have perm : (blocks ++ allocatedBlocks s.memory live).Perm
      (allocatedBlock s.memory a.1 :: (blocks ++ allocatedBlocks s.memory (live.erase a))) :=
    ((List.perm_cons_erase memberA).map _).append_left blocks |>.trans List.perm_middle
  refine (arena.partition.perm perm).apart (List.mem_append_right _ ?_) (by omega) (by omega)
  exact List.mem_map_of_mem ((List.mem_erase_of_ne ne.symm).mpr memberB)

/-- A write into a live allocation touches neither a header nor an info. -/
theorem Arena.store (arena : Arena allocatePages s live blocks) {a : Nat × Layout}
    (mem : a ∈ live) {address word : Nat} (low : a.1 ≤ address)
    (high : address < a.1 + a.2.size) :
    Arena allocatePages { s with memory := s.memory.write address word } live blocks ∧
      allocatedBlocks (s.memory.write address word) live = allocatedBlocks s.memory live := by
  have here := arena.allocated a mem
  have info := here.info
  have room := here.room
  have outside : ∀ x, x ≠ address → s.memory.write address word x = s.memory x :=
    fun x other => if_neg other
  have each : ∀ b ∈ live, Allocated (s.memory.write address word) b.1 b.2 ∧
      allocatedBlock (s.memory.write address word) b.1 = allocatedBlock s.memory b.1 := by
    intro b memberB
    refine (arena.allocated b memberB).congr ?_
    intro x lowX highX
    refine outside x ?_
    by_cases same : a = b
    · subst same
      omega
    · have apart := arena.apart_live mem memberB same
      have := (arena.allocated b memberB).room
      omega
  have sameBlocks : allocatedBlocks (s.memory.write address word) live =
      allocatedBlocks s.memory live :=
    List.map_congr_left fun b memberB => (each b memberB).2
  refine ⟨⟨?_, fun b memberB => (each b memberB).1, ?_, arena.nonzero, arena.below, arena.adjacent,
    arena.freeSize, ?_⟩, sameBlocks⟩
  · refine arena.list.congr ?_
    intro c free x lowX highX
    have apart := arena.apart (List.mem_map_of_mem mem) free
    have := (arena.list.shape c free).2.2
    exact outside x (by omega)
  · rw [sameBlocks]
    exact arena.partition
  · rw [sameBlocks]
    exact arena.usedSize

/-- Every call keeps the arena. -/
theorem Heap.arena_step (provider : Adjacent pageSize allocatePages) (h : Heap π) (c : Call)
    (h' : Heap π) (arena : ∃ blocks, Arena allocatePages h.allocator h.live blocks)
    (allowed : h.Allowed c) (taken : h.step pageSize allocatePages c = some h') :
    ∃ blocks, Arena allocatePages h'.allocator h'.live blocks := by
  obtain ⟨blocks, arena⟩ := arena
  cases c with
  | alloc layout =>
    simp only [Heap.step, bind_eq_some, Option.some.injEq] at taken
    obtain ⟨⟨ptr, allocator⟩, allocated, rfl⟩ := taken
    obtain ⟨nonzero, -, blocks', arena'⟩ := arena.alloc provider allocated
    refine ⟨blocks', ?_⟩
    simp only [if_neg nonzero]
    exact arena'
  | dealloc ptr layout =>
    obtain ⟨allocator, blocks', freed, arena', -⟩ := arena.dealloc allowed
    simp only [Heap.step, freed, some_bind, Option.some.injEq] at taken
    subst taken
    exact ⟨blocks', arena'⟩
  | store address word =>
    obtain ⟨-, a, mem, low, high⟩ := allowed
    cases taken
    exact ⟨blocks, (arena.store mem low high).1⟩

/-- There is an arena in every state of every run. -/
theorem Heap.arena_of_reached (provider : Adjacent pageSize allocatePages) (h : Heap π)
    (reached : h.Reached pageSize allocatePages) :
    ∃ blocks, Arena allocatePages h.allocator h.live blocks := by
  refine Reachable.invariant ?_ (Heap.arena_step provider) h reached
  intro h start
  obtain ⟨p, memory, rfl⟩ := start
  exact ⟨[], arena_new p memory⟩

/-- The pages of the kernel heap are adjacent. -/
theorem adjacent_kernelHeap : Adjacent page4K PageAllocator.allocatePages := by
  have given : ∀ p pages start p', PageAllocator.allocatePages p pages = some (start, p') →
      start = kernelHeapBase + p.mappedPages * page4K ∧
      p'.mappedPages = p.mappedPages + pages ∧
      (p.mappedPages + pages) * page4K ≤ kernelHeapSize := by
    intro p pages start p' allocated
    unfold PageAllocator.allocatePages at allocated
    split at allocated
    · rename_i fits
      split at allocated
      · cases allocated
        exact ⟨by rw [p.base], rfl, fits⟩
      · simp at allocated
    · simp at allocated
  refine ⟨⟨12, by decide, rfl⟩, ?_, ?_⟩
  · intro p pages start p' allocated
    obtain ⟨rfl, -, fits⟩ := given p pages start p' allocated
    simp only [page4K, kernelHeapBase, kernelHeapSize, MemoryManagement.kernelEnd,
      MemoryManagement.kernelBase, MemoryManagement.kernelMappedSize] at fits ⊢
    omega
  · intro p pages start p' more next p'' first second
    obtain ⟨rfl, mapped, -⟩ := given p pages start p' first
    obtain ⟨rfl, -, -⟩ := given p' more next p'' second
    rw [mapped, add_mul, add_assoc]

/-- The blocks that the free list leads over are linked in the order of their addresses by `next`
and back by `prev`, with a gap after each of them. Together with the blocks of the live allocations,
which hold the memory of these, they partition the heap. -/
def Heap.Partitioned (h : Heap π) : Prop :=
  ∃ blocks, h.allocator.iterFreeBlocks = some (blocks.map Prod.fst) ∧
    FreeList h.allocator.memory h.allocator.freeListAddr blocks ∧
    Partitions Prod.fst Prod.snd h.allocator.heapStart
      (h.allocator.heapStart + h.allocator.totalHeapSize)
      (blocks ++ allocatedBlocks h.allocator.memory h.live) ∧
    ∀ a ∈ h.live, Allocated h.allocator.memory a.1 a.2

/-- The heap is partitioned in every state of every run. -/
theorem partitioned_of_reached (provider : Adjacent pageSize allocatePages) (h : Heap π)
    (reached : h.Reached pageSize allocatePages) : h.Partitioned := by
  obtain ⟨blocks, arena⟩ := Heap.arena_of_reached provider h reached
  exact ⟨blocks, arena.list.iterFreeBlocks arena.starts_below, arena.list, arena.partition,
    arena.allocated⟩

/-- The checks in `alloc` and `dealloc` panic in no state of a run: `dealloc` of a live allocation
returns, and `alloc` passes the check when it has taken a block that is large enough. -/
theorem selfCheck_passes (provider : Adjacent pageSize allocatePages) (h : Heap π)
    (reached : h.Reached pageSize allocatePages) :
    (∀ ptr layout, h.Allowed (.dealloc ptr layout) →
      (h.allocator.dealloc ptr layout).isSome) ∧
    ∀ layout bytes offset block r, wholeBlock layout = some (bytes, offset) →
      HeapAllocator.getFreeBlock pageSize allocatePages 2 h.allocator bytes = some (block, r) →
      let needed := bytes + (HeapAllocator.blockOffset block layout.align - offset)
      needed ≤ HeapFreeBlock.size r.memory block →
      ∃ taken t, r.takeBlock block needed = (taken, t) ∧ { t with
        freeSize := t.freeSize - taken, usedSize := t.usedSize + taken }.checked.isSome := by
  obtain ⟨blocks, arena⟩ := Heap.arena_of_reached provider h reached
  refine ⟨fun ptr layout live => ?_, fun layout bytes offset block r padded found => ?_⟩
  · obtain ⟨t, -, freed, -⟩ := arena.dealloc live
    rw [freed]
    rfl
  · intro needed fits
    obtain ⟨blocks', size, arena', mem, -⟩ := arena.getFreeBlock provider found
    obtain ⟨dvdSize, dvdOffset, infoOffset, room⟩ := wholeBlock_spec padded
    have aligned : 16 ∣ block := (arena'.list.shape _ mem).1
    rw [arena'.list.sizes _ mem] at fits
    obtain ⟨taken, t, node, left, takes, checks, -⟩ := arena'.takeBlock mem
      (dvd_add dvdSize (Nat.dvd_sub (dvd_blockOffset aligned) dvdOffset)) (by omega) fits
    exact ⟨taken, t, takes, by rw [checks]; rfl⟩

end

/-- The kernel heap after some calls. -/
theorem Heap.reached_of_run (calls : List Call) (seen : Heap PageAllocator → Prop)
    [DecidablePred seen] (run : (runCalls (Heap.step page4K PageAllocator.allocatePages)
      (fun h c => decide (h.Allowed c)) ⟨.new PageAllocator.new fun _ => 0, []⟩ calls).any
        fun h => decide (seen h)) :
    ∃ h : Heap PageAllocator, h.Reached page4K PageAllocator.allocatePages ∧ seen h :=
  Reachable.exists_of_run ⟨PageAllocator.new, fun _ => 0, rfl⟩ calls run

/-- Two allocations in the kernel heap, of which the first one is written and freed again. -/
def someCalls : List Call :=
  [.alloc ⟨100, 8, ⟨3, rfl⟩, by decide⟩, .alloc ⟨512, 64, ⟨6, rfl⟩, by decide⟩,
    .store (kernelHeapBase + 0x20) 7,
    .dealloc (kernelHeapBase + 0x20) ⟨100, 8, ⟨3, rfl⟩, by decide⟩]

/-- After these calls one allocation is live, and the blocks before and after it are free. -/
theorem partitioned_kernelHeap :
    ∃ h : Heap PageAllocator, h.Reached page4K PageAllocator.allocatePages ∧
      (h.live.length = 1 ∧ h.allocator.iterFreeBlocks.map List.length = some 2) ∧
      h.Partitioned := by
  obtain ⟨h, reached, counts⟩ := Heap.reached_of_run someCalls
    (fun h => h.live.length = 1 ∧ h.allocator.iterFreeBlocks.map List.length = some 2)
    (by decide +kernel)
  exact ⟨h, reached, counts, partitioned_of_reached adjacent_kernelHeap h reached⟩

/-- Three allocations in the kernel heap, each behind the last one. -/
def threeCalls : List Call :=
  let words : Layout := ⟨16, 16, Layout.blockInfo.power, by decide⟩
  [.alloc words, .alloc .blockInfo, .alloc words]

/-- With three live allocations the second one can be freed, and a block can be taken. -/
theorem selfCheck_kernelHeap : ∃ h : Heap PageAllocator, h.live.length = 3 ∧
    (h.allocator.dealloc (kernelHeapBase + 0x50) .blockInfo).isSome ∧
    ∃ block r taken t, HeapAllocator.getFreeBlock page4K PageAllocator.allocatePages 2
        h.allocator 64 = some (block, r) ∧ r.takeBlock block 64 = (taken, t) ∧
      { t with freeSize := t.freeSize - taken, usedSize := t.usedSize + taken }.checked.isSome := by
  obtain ⟨h, reached, live, allowed, searched⟩ := Heap.reached_of_run threeCalls (fun h =>
    h.live.length = 3 ∧ h.Allowed (.dealloc (kernelHeapBase + 0x50) .blockInfo) ∧
    (HeapAllocator.getFreeBlock page4K PageAllocator.allocatePages 2 h.allocator 64).map
      (fun found => (HeapAllocator.blockOffset found.1 16,
        decide (64 ≤ HeapFreeBlock.size found.2.memory found.1))) = some (32, true))
    (by decide +kernel)
  obtain ⟨⟨block, r⟩, found, same⟩ := Option.map_eq_some_iff.mp searched
  obtain ⟨offset, large⟩ := Prod.mk.inj same
  obtain ⟨frees, takes⟩ := selfCheck_passes adjacent_kernelHeap h reached
  have taken := takes .blockInfo 64 32 block r (by decide) found
  rw [show HeapAllocator.blockOffset block Layout.blockInfo.align = 32 from offset] at taken
  obtain ⟨bytes, t, took, checks⟩ := taken (of_decide_eq_true large)
  exact ⟨h, live, frees _ _ allowed, block, r, bytes, t, found, took, checks⟩

end Emerald.IncreasingHeapAllocator
