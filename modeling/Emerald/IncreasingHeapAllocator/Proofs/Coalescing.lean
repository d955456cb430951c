
import Emerald.IncreasingHeapAllocator.Proofs.Placement

/-!
# Frees in any order

The free list is in order and has a gap after each block, so it is determined by the bytes that are
free. These do not depend on the order in which allocations are freed, and once all of them are
freed they are the whole heap.
-/

namespace Emerald.IncreasingHeapAllocator

open MemoryManagement (page4K kernelHeapBase PageAllocator)

section
variable {π : Type}

/-- `dealloc` of some allocations, one after the other. -/
def HeapAllocator.deallocAll (s : HeapAllocator π) : List (Nat × Layout) → Option (HeapAllocator π)
  | [] => some s
  | a :: rest => (s.dealloc a.1 a.2).bind fun t => t.deallocAll rest

variable {allocatePages : π → Nat → Option (Nat × π)} {s t : HeapAllocator π}
  {live others : List (Nat × Layout)} {blocks blocks' : List (Nat × Nat)}

theorem FreeList.gapped {m : HeapMemory} {first : Nat} (list : FreeList m first blocks) :
    Gapped blocks :=
  ⟨list.apart, fun b mem => Nat.lt_of_le_of_lt (Nat.zero_le _) (list.shape b mem).2.2⟩

/-- The order in which the allocations are listed does not matter. -/
theorem Arena.perm (arena : Arena allocatePages s live blocks) (perm : live.Perm others) :
    Arena allocatePages s others blocks where
  list := arena.list
  allocated := fun a mem => arena.allocated a (perm.mem_iff.mpr mem)
  partition := arena.partition.perm ((perm.map _).append_left blocks)
  nonzero := arena.nonzero
  below := arena.below
  adjacent := arena.adjacent
  freeSize := arena.freeSize
  usedSize := arena.usedSize.trans ((perm.map _).map _).sum_nat

/-- Frees in some order return, and free exactly the blocks of the allocations. -/
theorem Arena.deallocAll {freed kept : List (Nat × Layout)}
    (arena : Arena allocatePages s (freed ++ kept) blocks) :
    ∃ t blocks', s.deallocAll freed = some t ∧ Arena allocatePages t kept blocks' ∧
      (∀ x, cover Prod.fst Prod.snd x blocks' =
        cover Prod.fst Prod.snd x (allocatedBlocks s.memory freed ++ blocks)) ∧
      t.heapStart = s.heapStart ∧ t.totalHeapSize = s.totalHeapSize := by
  induction freed generalizing s blocks with
  | nil => exact ⟨s, blocks, rfl, arena, fun _ => rfl, rfl, rfl⟩
  | cons a rest ih =>
    obtain ⟨r, between, returned, arenaR, gains, same, startR, totalR⟩ :=
      arena.dealloc (List.mem_cons_self (a := a) (l := rest ++ kept))
    rw [List.cons_append, List.erase_cons_head] at arenaR same
    obtain ⟨t, blocks', all, arenaT, covers, startT, totalT⟩ := ih arenaR
    refine ⟨t, blocks', ?_, arenaT, ?_, startT.trans startR, totalT.trans totalR⟩
    · rw [HeapAllocator.deallocAll, returned, Option.bind_some, all]
    · intro x
      have sameRest : allocatedBlocks r.memory rest = allocatedBlocks s.memory rest := by
        rw [allocatedBlocks, allocatedBlocks, List.map_append, List.map_append] at same
        exact List.append_inj_left same (by simp [allocatedBlocks])
      rw [covers x, sameRest, cover_append, gains.covers x, cover_cons, allocatedBlocks,
        allocatedBlocks, List.map_cons, List.cons_append, cover_cons, cover_append]
      omega

/-- The free list of a heap without live allocations: one block, if the heap is not empty. -/
def wholeHeap (s : HeapAllocator π) : List (Nat × Nat) :=
  if s.totalHeapSize = 0 then [] else [(s.heapStart, s.totalHeapSize)]

theorem Arena.blocks_eq_wholeHeap (arena : Arena allocatePages s [] blocks) :
    blocks = wholeHeap s := by
  refine arena.list.gapped.eq_of_cover ?_ ?_
  · unfold wholeHeap
    split
    · exact ⟨List.Pairwise.nil, by simp⟩
    · exact ⟨List.pairwise_singleton _ _, by simp; omega⟩
  · intro x
    have whole := arena.partition x
    rw [allocatedBlocks, List.map_nil, List.append_nil] at whole
    rw [whole, wholeHeap]
    split
    · split
      · omega
      · rw [cover_cons, if_pos (by simpa), cover_nil]
    · split
      · rfl
      · rw [cover_cons, if_neg (by omega), cover_nil]

/-- Two orders of freeing the same live allocations give the same free list. If they are all that
are live, it is the whole heap. -/
theorem deallocAll_commutes {pageSize : Nat} (provider : Adjacent pageSize allocatePages)
    (h : Heap π) (reached : h.Reached pageSize allocatePages)
    (freed other kept : List (Nat × Layout)) (live : h.live.Perm (freed ++ kept))
    (order : freed.Perm other) :
    ∃ s t free, h.allocator.deallocAll freed = some s ∧ h.allocator.deallocAll other = some t ∧
      s.debugFreeBlocks = some free ∧ t.debugFreeBlocks = some free ∧
      (kept = [] → free = wholeHeap h.allocator ∧ s.usedSize = 0 ∧ t.usedSize = 0 ∧
        s.freeSize = h.allocator.totalHeapSize ∧ t.freeSize = h.allocator.totalHeapSize) := by
  obtain ⟨blocks, arena⟩ := Heap.arena_of_reached provider h reached
  obtain ⟨s, blocksS, allS, arenaS, coversS, startS, totalS⟩ := (arena.perm live).deallocAll
  obtain ⟨t, blocksT, allT, arenaT, coversT, startT, totalT⟩ :=
    (arena.perm (live.trans (order.append_right kept))).deallocAll
  have same : blocksS = blocksT := by
    refine arenaS.list.gapped.eq_of_cover arenaT.list.gapped ?_
    intro x
    rw [coversS x, coversT x]
    exact ((order.map _).append_right blocks).countP_eq _
  subst same
  refine ⟨s, t, blocksS, allS, allT, arenaS.debugFreeBlocks, arenaT.debugFreeBlocks, ?_⟩
  intro all
  subst all
  have whole : blocksS = wholeHeap h.allocator := by
    rw [arenaS.blocks_eq_wholeHeap, wholeHeap, wholeHeap, startS, totalS]
  have total : (blocksS.map Prod.snd).sum = h.allocator.totalHeapSize := by
    rw [whole, wholeHeap]
    split
    · rename_i zero
      exact zero.symm
    · simp
  exact ⟨whole, arenaS.usedSize, arenaT.usedSize, arenaS.freeSize.trans total,
    arenaT.freeSize.trans total⟩

end

/-- After three allocations the last two are freed one after the other, or the other way round. -/
theorem deallocAll_kernelHeap :
    ∃ (h : Heap PageAllocator) (a b c : Nat × Layout),
      h.Reached page4K PageAllocator.allocatePages ∧ h.live = [a, b, c] ∧
      ∃ s t free, h.allocator.deallocAll [a, b] = some s ∧ h.allocator.deallocAll [b, a] = some t ∧
        s.debugFreeBlocks = some free ∧ t.debugFreeBlocks = some free := by
  obtain ⟨h, reached, live⟩ := Heap.reached_of_run threeCalls (fun h => h.live =
    [(kernelHeapBase + 0x90, ⟨16, 16, ⟨4, rfl⟩, by decide⟩),
      (kernelHeapBase + 0x50, ⟨32, 16, ⟨4, rfl⟩, by decide⟩),
      (kernelHeapBase + 0x20, ⟨16, 16, ⟨4, rfl⟩, by decide⟩)]) (by decide +kernel)
  refine ⟨h, _, _, _, reached, live, ?_⟩
  obtain ⟨s, t, free, first, second, freeS, freeT, -⟩ := deallocAll_commutes adjacent_kernelHeap h
    reached [_, _] [_, _] [_] (List.Perm.of_eq live) (List.Perm.swap _ _ [])
  exact ⟨s, t, free, first, second, freeS, freeT⟩

/-- A new allocator has no live allocations, and no free block: its heap is empty. -/
theorem freeBlocks_new :
    ∃ h : Heap PageAllocator, h.Reached page4K PageAllocator.allocatePages ∧ h.live = [] ∧
      h.allocator.deallocAll h.live = some h.allocator ∧
      ∀ block, h.allocator.debugFreeBlocks ≠ some [block] := by
  refine ⟨⟨.new PageAllocator.new fun _ => 0, []⟩, .start ⟨_, _, rfl⟩, rfl, rfl, ?_⟩
  intro block single
  cases single

end Emerald.IncreasingHeapAllocator
