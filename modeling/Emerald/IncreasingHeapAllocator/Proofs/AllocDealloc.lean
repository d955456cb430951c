
import Emerald.IncreasingHeapAllocator.Proofs.Arena

/-!
# `alloc` and `dealloc` keep the arena

`Arena.alloc` and `Arena.dealloc` are the two results. The first holds for every call that returns,
and the second one says that a call for a live allocation does return.
-/

namespace Emerald.IncreasingHeapAllocator

open MemoryManagement (alignUp isAligned_two_pow le_alignUp)
open HeapFreeBlock

variable {wanted block ptr : Nat} {layout : Layout}

section
variable {π : Type} {pageSize : Nat} {allocatePages : π → Nat → Option (Nat × π)}
  {s t : HeapAllocator π} {live : List (Nat × Layout)} {blocks blocks' : List (Nat × Nat)}
variable {taken pages : Nat} {m : HeapMemory}

/-! ## Growth -/

theorem Adjacent.pageSize_dvd (provider : Adjacent pageSize allocatePages) :
    16 ∣ pageSize ∧ heapFreeBlockSize < pageSize := by
  obtain ⟨k, large, rfl⟩ := provider.pages
  refine ⟨Nat.pow_dvd_pow 2 (show 4 ≤ k by omega), ?_⟩
  have : 2 ^ 5 ≤ 2 ^ k := Nat.pow_le_pow_right (by decide) large
  simp only [heapFreeBlockSize]
  omega

/-- New pages continue the heap. -/
theorem Arena.allocateMorePages (provider : Adjacent pageSize allocatePages)
    (arena : Arena allocatePages s live blocks) {new : Nat} {p' : π} (wanted : 0 < pages)
    (given : allocatePages s.pageAllocator pages = some (new, p')) :
    ∃ t blocks', s.allocateMorePages pageSize allocatePages pages = some t ∧
      t.totalHeapSize ≠ 0 ∧ Arena allocatePages t live blocks' ∧
      Gains (new, pages * pageSize) blocks blocks' ∧
      allocatedBlocks t.memory live = allocatedBlocks s.memory live := by
  obtain ⟨dvdNew, nonzeroNew, belowNew⟩ := provider.block _ _ _ _ given
  obtain ⟨dvdPage, largePage⟩ := provider.pageSize_dvd
  have one : pageSize ≤ pages * pageSize := Nat.le_mul_of_pos_left _ wanted
  -- the pages start where the heap ends, also if it was empty
  have continues : Partitions Prod.fst Prod.snd
        (if s.totalHeapSize = 0 then new else s.heapStart) new
        (blocks ++ allocatedBlocks s.memory live) ∧
      (if s.totalHeapSize = 0 then new else s.heapStart) + s.totalHeapSize = new ∧
      (if s.totalHeapSize = 0 then new else s.heapStart) ≠ 0 := by
    by_cases zero : s.totalHeapSize = 0
    · obtain ⟨rfl, rfl⟩ := arena.empty zero
      rw [zero]
      exact ⟨partitions_nil new, rfl, nonzeroNew⟩
    · rw [if_neg zero, arena.adjacent zero _ _ _ given]
      exact ⟨arena.partition, rfl, arena.nonzero zero⟩
  rw [HeapAllocator.allocateMorePages, if_pos wanted]
  simp only [given, some_bind]
  generalize (if s.totalHeapSize = 0 then new else s.heapStart) = heapStart at continues ⊢
  obtain ⟨base, ends, nonzero⟩ := continues
  have before : ∀ b ∈ blocks ++ allocatedBlocks s.memory live, b.1 + b.2 ≤ new :=
    fun b mem => (base.within mem (by have := arena.large mem; omega)).2
  obtain ⟨t, blocks', put, changes, gains⟩ := addPages_spec (s := { s with
      heapStart := heapStart, totalHeapSize := s.totalHeapSize + pages * pageSize
      pageAllocator := p' }) new (pages * pageSize) arena.list arena.starts_below
    (by simp only; omega) nonzeroNew
    ⟨dvd_trans dvdPage dvdNew, Nat.dvd_mul_left_of_dvd dvdPage _, by omega⟩
    (fun b mem => .inl (before b (List.mem_append_left _ mem)))
  obtain ⟨allocated, sameBlocks⟩ := arena.allocated_congr (List.Subset.refl live)
    (fun b used => arena.unchanged changes.only used
      (.inr (before b (List.mem_append_right _ used))))
  have extended := base.extend (b := (new, pages * pageSize)) (by omega) rfl
  rw [put]
  refine ⟨_, blocks', rfl, ?_, ⟨changes.list, allocated, ?_, ?_, ?_, ?_, ?_, ?_⟩, gains, sameBlocks⟩
  · rw [changes.rest]
    simp only
    omega
  · rw [sameBlocks, changes.rest]
    rw [← add_assoc, ends]
    exact Partitions.replace extended gains.covers
  · intro _
    rw [changes.rest]
    exact nonzero
  · rw [changes.rest]
    simp only
    omega
  · intro _ more start p'' again
    rw [changes.rest] at again ⊢
    rw [provider.adjacent _ _ _ _ _ _ _ given again]
    simp only
    omega
  · rw [gains.total, changes.rest]
    simp only [arena.freeSize]
    omega
  · rw [sameBlocks, changes.rest]
    exact arena.usedSize

/-- A growth that succeeds was given its pages. -/
theorem allocateMorePages_given
    (grown : s.allocateMorePages pageSize allocatePages pages = some t) :
    0 < pages ∧ ∃ new p', allocatePages s.pageAllocator pages = some (new, p') := by
  unfold HeapAllocator.allocateMorePages at grown
  split at grown
  · rename_i some
    simp only [bind_eq_some] at grown
    obtain ⟨⟨new, p'⟩, given, -⟩ := grown
    exact ⟨some, new, p', given⟩
  · simp at grown

/-! ## The search for a free block -/

theorem bestBlock_spec (best : Nat) (sizes : ∀ b ∈ blocks, size m b.1 = b.2) :
    bestBlock m wanted (blocks.map Prod.fst) best = best ∨
      ∃ b ∈ blocks, bestBlock m wanted (blocks.map Prod.fst) best = b.1 ∧ wanted ≤ b.2 := by
  induction blocks generalizing best with
  | nil => exact .inl rfl
  | cons b rest ih =>
    have later : ∀ c ∈ rest, size m c.1 = c.2 := fun c mem => sizes c (by simp [mem])
    rw [List.map_cons, bestBlock]
    split
    · rename_i better
      rcases ih b.1 later with here | ⟨c, mem, found, large⟩
      · exact .inr ⟨b, by simp, here, sizes b (by simp) ▸ better.1⟩
      · exact .inr ⟨c, by simp [mem], found, large⟩
    · rcases ih best later with here | ⟨c, mem, found, large⟩
      · exact .inl here
      · exact .inr ⟨c, by simp [mem], found, large⟩

theorem bestBlock_ne_zero {best : Nat} {nodes : List Nat}
    (nonzero : ∀ x ∈ nodes, x ≠ 0) (some : best ≠ 0 ∨ ∃ x ∈ nodes, wanted ≤ size m x) :
    bestBlock m wanted nodes best ≠ 0 := by
  induction nodes generalizing best with
  | nil => simpa [bestBlock] using some
  | cons x rest ih =>
    have later : ∀ y ∈ rest, y ≠ 0 := fun y mem => nonzero y (by simp [mem])
    rw [bestBlock]
    split
    · exact ih later (.inl (nonzero x (by simp)))
    · rename_i worse
      refine ih later ?_
      by_cases none : best = 0
      · refine .inr ?_
        obtain ⟨y, mem, large⟩ := some.resolve_left (fun some => some none)
        rcases List.mem_cons.mp mem with rfl | after
        · exact absurd ⟨large, .inl none⟩ worse
        · exact ⟨y, after, large⟩
      · exact .inl none

/-- A block that is large enough is found without growth of the heap. -/
theorem Arena.getFreeBlock_found (arena : Arena allocatePages s live blocks)
    (grown : s.totalHeapSize ≠ 0) (large : ∃ b ∈ blocks, wanted ≤ b.2) (calls : Nat) :
    HeapAllocator.getFreeBlock pageSize allocatePages (calls + 1) s wanted =
      some (bestBlock s.memory wanted (blocks.map Prod.fst) 0, s) := by
  obtain ⟨b, mem, fits⟩ := large
  have some : bestBlock s.memory wanted (blocks.map Prod.fst) 0 ≠ 0 := by
    refine bestBlock_ne_zero arena.list.linked.ne_zero (.inr ⟨b.1, ?_, ?_⟩)
    · exact List.mem_map_of_mem mem
    · rw [arena.list.sizes b mem]
      exact fits
  simp [HeapAllocator.getFreeBlock, grown, arena.list.iterFreeBlocks arena.starts_below, some]

/-- `get_free_block` returns a block of the list that is large enough. -/
theorem Arena.getFreeBlock (provider : Adjacent pageSize allocatePages)
    (arena : Arena allocatePages s live blocks) {calls : Nat}
    (found : HeapAllocator.getFreeBlock pageSize allocatePages calls s wanted = some (block, t)) :
    ∃ blocks' bytes, Arena allocatePages t live blocks' ∧ (block, bytes) ∈ blocks' ∧
      wanted ≤ bytes ∧ allocatedBlocks t.memory live = allocatedBlocks s.memory live := by
  have pos : 0 < pageSize := Nat.lt_of_le_of_lt (Nat.zero_le _) provider.pageSize_dvd.2
  induction calls generalizing s wanted blocks with
  | zero => simp [HeapAllocator.getFreeBlock] at found
  | succ calls ih =>
    -- the second call asks for no less
    have afterGrowth : ∀ r, s.allocateMorePages pageSize allocatePages
          (alignUp wanted pageSize / pageSize) = some r →
        HeapAllocator.getFreeBlock pageSize allocatePages calls r (alignUp wanted pageSize) =
          some (block, t) →
        ∃ blocks' bytes, Arena allocatePages t live blocks' ∧ (block, bytes) ∈ blocks' ∧
          wanted ≤ bytes ∧ allocatedBlocks t.memory live = allocatedBlocks s.memory live := by
      intro r grown again
      obtain ⟨some, new, p', given⟩ := allocateMorePages_given grown
      obtain ⟨r', blocks', grown', -, arena', -, kept⟩ :=
        arena.allocateMorePages provider some given
      cases Option.some.inj (grown'.symm.trans grown)
      obtain ⟨blocks'', bytes, arena'', mem, large, kept'⟩ := ih arena' again
      exact ⟨blocks'', bytes, arena'', mem, Nat.le_trans (le_alignUp wanted pos) large,
        kept'.trans kept⟩
    simp only [HeapAllocator.getFreeBlock] at found
    split at found
    · simp only [Option.bind_eq_bind, Option.bind_eq_some_iff] at found
      obtain ⟨r, grown, again⟩ := found
      exact afterGrowth r grown again
    · rw [arena.list.iterFreeBlocks arena.starts_below] at found
      simp only [Option.bind_eq_bind, Option.bind_some] at found
      split at found
      · simp only [Option.bind_eq_some_iff] at found
        obtain ⟨r, grown, again⟩ := found
        exact afterGrowth r grown again
      · rename_i some
        simp only [Option.some.injEq, Prod.mk.injEq] at found
        obtain ⟨blockIs, rfl⟩ := found
        rcases bestBlock_spec 0 arena.list.sizes with none | ⟨b, mem, here, large⟩
        · exact absurd none some
        · refine ⟨blocks, b.2, arena, ?_, large, rfl⟩
          rw [← blockIs, here]
          exact mem

/-! ## `alloc` -/

/-- An allocation is the start of a free block, or all of it. -/
theorem takeBlock_spec (list : FreeList s.memory s.freeListAddr blocks)
    {bytes allocationSize : Nat} (mem : (block, bytes) ∈ blocks)
    (aligned : 16 ∣ allocationSize) (info : kernelHeapBlockInfoSize ≤ allocationSize)
    (fits : allocationSize ≤ bytes) :
    ∃ taken t node blocks', s.takeBlock block allocationSize = (taken, t) ∧
      Changes node blocks blocks' s t ∧ Gains (block, taken) blocks' blocks ∧
      block ≤ node ∧ node + heapFreeBlockSize ≤ block + bytes ∧
      allocationSize ≤ taken ∧ taken ≤ bytes ∧ 16 ∣ taken := by
  obtain ⟨xs, ys, rfl⟩ := List.append_of_mem mem
  have regroup : xs ++ (block, bytes) :: ys = xs ++ [(block, bytes)] ++ ys := by simp
  have sizeIs : size s.memory block = bytes := list.sizes _ mem
  have shape : 16 ∣ block ∧ 16 ∣ bytes ∧ heapFreeBlockSize < bytes := list.shape _ mem
  rw [regroup] at list ⊢
  unfold HeapAllocator.takeBlock
  rw [sizeIs]
  by_cases splits : allocationSize + heapFreeBlockSize < bytes
  · rw [if_pos splits]
    refine ⟨_, _, _, _, rfl, list.splitBlock aligned info splits, ⟨?_, ?_, ?_, ?_⟩, by omega,
      by omega, le_rfl, fits, aligned⟩
    · intro x
      simp only [cover_append, cover_cons]
      split <;> split <;> split <;> omega
    · simp only [List.map_append, List.sum_append, List.map_singleton, List.sum_singleton]
      omega
    · exact ⟨(block, bytes), by simp, fits⟩
    · intro b mem
      simp only [List.mem_append, List.mem_singleton] at mem ⊢
      rcases mem with (before | rfl) | after
      · exact .inl (by simp [before])
      · exact .inr (.inr (by omega))
      · exact .inl (by simp [after])
  · rw [if_neg splits]
    refine ⟨_, _, _, _, rfl, list.unlinkBlock, ⟨?_, ?_, ?_, ?_⟩, le_rfl, by omega, fits,
      le_rfl, shape.2.1⟩
    · intro x
      simp only [cover_append, cover_cons, cover_nil]
      omega
    · simp only [List.map_append, List.sum_append, List.map_singleton, List.sum_singleton]
      omega
    · exact ⟨(block, bytes), by simp, le_rfl⟩
    · intro b mem
      simp only [List.mem_append, List.mem_singleton] at mem ⊢
      rcases mem with (before | rfl) | after
      · exact .inl (.inl before)
      · exact .inr (.inl rfl)
      · exact .inl (.inr after)

section
variable {m : HeapMemory} {info bytes offset : Nat}

theorem store_outside {a : Nat} (outside : a < info ∨ info + heapFreeBlockSize ≤ a) :
    AllocatedHeapBlockInfo.store m info bytes offset a = m a := by
  simp only [heapFreeBlockSize] at outside
  simp only [AllocatedHeapBlockInfo.store, HeapMemory.write]
  rw [if_neg (by omega), if_neg (by omega), if_neg (by omega)]

theorem magic_store :
    AllocatedHeapBlockInfo.magic (AllocatedHeapBlockInfo.store m info bytes offset) info =
      heapMagic := by
  simp only [AllocatedHeapBlockInfo.magic, AllocatedHeapBlockInfo.store, HeapMemory.write]
  rw [if_neg (by omega), if_neg (by omega), if_true, Nat.mul_add_mod']
  decide

theorem allocatedBlock_store :
    allocatedBlock (AllocatedHeapBlockInfo.store m (ptr - kernelHeapBlockInfoSize) bytes offset)
      ptr = (ptr - offset, bytes) := by
  simp [allocatedBlock, AllocatedHeapBlockInfo.prePadding, AllocatedHeapBlockInfo.size,
    AllocatedHeapBlockInfo.store, HeapMemory.write]

end

/-- The state after a block was taken and the info was written into it. -/
def withInfo (t : HeapAllocator π) (block taken offset : Nat) : HeapAllocator π :=
  { t with
    freeSize := t.freeSize - taken
    usedSize := t.usedSize + taken
    memory := AllocatedHeapBlockInfo.store t.memory (block + offset - kernelHeapBlockInfoSize) taken
      offset }

section
variable (arena : Arena allocatePages s live blocks) {allocationSize : Nat}
include arena

/-- The rest of the free blocks and the taken block partition the heap with the allocations. -/
theorem Arena.parted (gains : Gains (block, taken) blocks' blocks) :
    Partitions Prod.fst Prod.snd s.heapStart (s.heapStart + s.totalHeapSize)
      ((block, taken) :: blocks' ++ allocatedBlocks s.memory live) :=
  arena.partition.replace fun x => (gains.covers x).symm

theorem Arena.parted_below (gains : Gains (block, taken) blocks' blocks) {m : HeapMemory}
    {first : Nat} (list : FreeList m first blocks') : ∀ b ∈ blocks', b.1 < 2 ^ 64 := by
  intro b free
  have large := (list.shape b free).2.2
  have inside := (arena.parted gains).within
    (List.mem_append_left _ (List.mem_cons_of_mem _ free)) (by omega)
  have := arena.below
  omega

/-- A part of a free block is taken, and what is left of the list passes the check. -/
theorem Arena.takeBlock {bytes : Nat} (mem : (block, bytes) ∈ blocks)
    (aligned : 16 ∣ allocationSize) (info : kernelHeapBlockInfoSize ≤ allocationSize)
    (fits : allocationSize ≤ bytes) :
    ∃ taken t node blocks', s.takeBlock block allocationSize = (taken, t) ∧
      { t with freeSize := t.freeSize - taken, usedSize := t.usedSize + taken }.checked =
        some { t with freeSize := t.freeSize - taken, usedSize := t.usedSize + taken } ∧
      Changes node blocks blocks' s t ∧ Gains (block, taken) blocks' blocks ∧
      block ≤ node ∧ node + heapFreeBlockSize ≤ block + bytes ∧
      allocationSize ≤ taken ∧ taken ≤ bytes ∧ 16 ∣ taken := by
  obtain ⟨taken, t, node, blocks', takes, changes, gains, rest⟩ :=
    takeBlock_spec arena.list mem aligned info fits
  exact ⟨taken, t, node, blocks', takes,
    FreeList.checked changes.list (arena.parted_below gains changes.list), changes, gains, rest⟩

/-- The taken block is that of a new allocation. -/
theorem Arena.take {bytes node offset : Nat} (mem : (block, bytes) ∈ blocks)
    (changes : Changes node blocks blocks' s t) (gains : Gains (block, taken) blocks' blocks)
    (inside : block ≤ node ∧ node + heapFreeBlockSize ≤ block + bytes) (fits : taken ≤ bytes)
    (aligned : 16 ∣ taken) (info : kernelHeapBlockInfoSize ≤ offset)
    (room : offset + layout.size ≤ taken)
    (whole : ∃ size offset, wholeBlock layout = some (size, offset) ∧ size ≤ taken)
    (alignedPtr : layout.align ∣ block + offset) :
    Arena allocatePages (withInfo t block taken offset) ((block + offset, layout) :: live)
      blocks' ∧
    allocatedBlocks (withInfo t block taken offset).memory live =
      allocatedBlocks s.memory live := by
  simp only [kernelHeapBlockInfoSize] at info
  have shape : 16 ∣ block ∧ 16 ∣ bytes ∧ heapFreeBlockSize < bytes := arena.list.shape _ mem
  have parted := arena.parted gains
  -- the info lies in the taken block
  have outside : ∀ a, a < block ∨ block + taken ≤ a →
      (withInfo t block taken offset).memory a = t.memory a := by
    intro a apart
    refine store_outside ?_
    simp only [kernelHeapBlockInfoSize, heapFreeBlockSize]
    omega
  have newBlock : allocatedBlock (withInfo t block taken offset).memory (block + offset) =
      (block, taken) := by
    rw [withInfo, allocatedBlock_store, Nat.add_sub_cancel]
  obtain ⟨allocated, sameBlocks⟩ := arena.allocated_congr
    (m := (withInfo t block taken offset).memory) (List.Subset.refl live) (fun b used => by
      have apart := arena.apart used mem
      have unchanged := arena.unchanged changes.only used (by omega)
      intro a low high
      rw [outside a (by omega), unchanged a low high])
  have blocksAre : allocatedBlocks (withInfo t block taken offset).memory
      ((block + offset, layout) :: live) = (block, taken) :: allocatedBlocks s.memory live := by
    rw [← sameBlocks, allocatedBlocks, List.map_cons, newBlock]
    rfl
  refine ⟨⟨?_, ?_, ?_, ?_, ?_, ?_, ?_, ?_⟩, sameBlocks⟩
  · refine changes.list.congr ?_
    intro c free a low high
    have large := (changes.list.shape c free).2.2
    have apart := parted.apart (List.mem_append_left _ free) (by omega) (by omega)
    exact outside a (by omega)
  · intro a used
    rcases List.mem_cons.mp used with rfl | later
    · refine ⟨magic_store, ?_, ?_, ?_, ?_, ?_, alignedPtr⟩
      all_goals simp only [newBlock, kernelHeapBlockInfoSize]
      · omega
      · omega
      · exact whole
      · exact shape.1
      · exact aligned
    · exact allocated a later
  · rw [blocksAre, changes.rest]
    exact parted.perm List.perm_middle.symm
  · rw [changes.rest]
    exact arena.nonzero
  · rw [changes.rest]
    exact arena.below
  · rw [changes.rest]
    exact arena.adjacent
  · have total := gains.total
    rw [withInfo, changes.rest]
    simp only [arena.freeSize]
    omega
  · rw [blocksAre, withInfo, changes.rest]
    simp only [arena.usedSize, List.map_cons, List.sum_cons]
    omega

/-- The allocation in a free block: the rest of the block stays in the list. -/
theorem Arena.allocIn {bytes offsetFromHeader : Nat} (mem : (block, bytes) ∈ blocks)
    (whole : wholeBlock layout = some (allocationSize, offsetFromHeader))
    (allocated : s.allocIn layout block allocationSize offsetFromHeader = some (ptr, t)) :
    ptr ≠ 0 ∧ allocatedBlocks t.memory live = allocatedBlocks s.memory live ∧
      ∃ blocks', Arena allocatePages t ((ptr, layout) :: live) blocks' := by
  obtain ⟨dvdSize, dvdOffset, infoOffset, roomOffset⟩ := wholeBlock_spec whole
  have shape : 16 ∣ block ∧ 16 ∣ bytes ∧ heapFreeBlockSize < bytes := arena.list.shape _ mem
  have dvdBlockOffset : 16 ∣ HeapAllocator.blockOffset block layout.align :=
    dvd_blockOffset shape.1
  have sizeIs : size s.memory block = bytes := arena.list.sizes _ mem
  unfold HeapAllocator.allocIn at allocated
  generalize HeapAllocator.blockOffset block layout.align = offset at dvdBlockOffset allocated
  simp only [sizeIs] at allocated
  obtain ⟨asserted, allocated⟩ := Option.ite_none_right_eq_some.mp allocated
  obtain ⟨-, infoFits, fits⟩ := asserted
  obtain ⟨taken, r, node, blocks', takes, checks, changes, gains, low, high, atLeast, atMost,
    dvdTaken⟩ := arena.takeBlock mem
      (dvd_add dvdSize (Nat.dvd_sub dvdBlockOffset dvdOffset)) (by omega) fits
  simp only [takes, checks, some_bind] at allocated
  obtain ⟨alignedPtr, allocated⟩ := Option.ite_none_right_eq_some.mp allocated
  cases allocated
  obtain ⟨k, power⟩ := layout.power
  rw [power, isAligned_two_pow, ← power] at alignedPtr
  simp only [kernelHeapBlockInfoSize] at infoFits
  obtain ⟨arena', kept⟩ := arena.take mem changes gains ⟨low, high⟩ atMost dvdTaken infoFits
    (by omega) ⟨_, _, whole, by omega⟩ alignedPtr
  exact ⟨by omega, kept, blocks', arena'⟩

end

/-- `alloc` never returns null, its result is a new allocation, and the blocks of the others
stay. -/
theorem Arena.alloc (provider : Adjacent pageSize allocatePages)
    (arena : Arena allocatePages s live blocks)
    (allocated : s.alloc pageSize allocatePages layout = some (ptr, t)) :
    ptr ≠ 0 ∧ allocatedBlocks t.memory live = allocatedBlocks s.memory live ∧
      ∃ blocks', Arena allocatePages t ((ptr, layout) :: live) blocks' := by
  simp only [HeapAllocator.alloc, bind_eq_some] at allocated
  obtain ⟨⟨allocationSize, offset⟩, whole, ⟨block, r⟩, found, allocated⟩ := allocated
  obtain ⟨blocks', bytes, arena', mem, -, kept⟩ := arena.getFreeBlock provider found
  have nonzero : block ≠ 0 :=
    arena'.list.linked.ne_zero block (List.mem_map_of_mem mem)
  rw [if_neg nonzero] at allocated
  obtain ⟨some, kept', result⟩ := arena'.allocIn mem whole allocated
  exact ⟨some, kept'.trans kept, result⟩

/-! ## `dealloc` -/

/-- `dealloc` of a live allocation returns. Its block is free then, and those of the others stay. -/
theorem Arena.dealloc (arena : Arena allocatePages s live blocks) (mem : (ptr, layout) ∈ live) :
    ∃ t blocks', s.dealloc ptr layout = some t ∧
      Arena allocatePages t (live.erase (ptr, layout)) blocks' ∧
      Gains (allocatedBlock s.memory ptr) blocks blocks' ∧
      allocatedBlocks t.memory (live.erase (ptr, layout)) =
        allocatedBlocks s.memory (live.erase (ptr, layout)) ∧
      t.heapStart = s.heapStart ∧ t.totalHeapSize = s.totalHeapSize := by
  have here : Allocated s.memory ptr layout := arena.allocated _ mem
  obtain ⟨bytes, offset, whole, enough⟩ := here.whole
  have info := here.info
  have pos := here.positive
  have start16 := here.start
  have size16 := here.size
  -- the freed block is set apart from the other blocks
  have split : Partitions Prod.fst Prod.snd s.heapStart (s.heapStart + s.totalHeapSize)
      (allocatedBlock s.memory ptr ::
        (blocks ++ allocatedBlocks s.memory (live.erase (ptr, layout)))) := by
    refine arena.partition.perm (List.Perm.trans ?_ List.perm_middle)
    exact List.Perm.append_left blocks ((List.perm_cons_erase mem).map _)
  obtain ⟨low, high⟩ := split.within List.mem_cons_self (by omega)
  have nonzero := arena.nonzero (by omega)
  have usedSum : s.usedSize = (allocatedBlock s.memory ptr).2 +
      ((allocatedBlocks s.memory (live.erase (ptr, layout))).map Prod.snd).sum := by
    rw [arena.usedSize]
    exact (((List.perm_cons_erase mem).map _).map _).sum_nat
  have asserted : ptr ≠ 0 ∧
      AllocatedHeapBlockInfo.magic s.memory (ptr - kernelHeapBlockInfoSize) = heapMagic ∧
      bytes ≤ AllocatedHeapBlockInfo.size s.memory (ptr - kernelHeapBlockInfoSize) ∧
      kernelHeapBlockInfoSize ≤
        AllocatedHeapBlockInfo.prePadding s.memory (ptr - kernelHeapBlockInfoSize) := by
    refine ⟨by omega, here.magic, enough, ?_⟩
    simp only [allocatedBlock] at info
    omega
  obtain ⟨t, blocks', freed, changes, gains⟩ := freeBlock_spec arena.list arena.starts_below high
    (by omega) ⟨start16, size16, pos⟩ (fun b free => by
      have large := (arena.list.shape b free).2.2
      have apart := split.apart (List.mem_append_left _ free) (by omega) (by omega)
      omega)
  have parted : Partitions Prod.fst Prod.snd s.heapStart (s.heapStart + s.totalHeapSize)
      (blocks' ++ allocatedBlocks s.memory (live.erase (ptr, layout))) :=
    Partitions.replace split gains.covers
  have below : ∀ b ∈ blocks', b.1 < 2 ^ 64 := by
    intro b free
    have large := (changes.list.shape b free).2.2
    have inside := parted.within (List.mem_append_left _ free) (by omega)
    have := arena.below
    omega
  obtain ⟨allocated, sameBlocks⟩ := arena.allocated_congr (m := t.memory)
    List.erase_subset (fun b used => by
      have used' : b ∈ allocatedBlocks s.memory live :=
        List.map_subset _ List.erase_subset used
      have large := arena.large (List.mem_append_right _ used')
      have apart := split.apart (List.mem_append_right _ used) (by omega) (by omega)
      exact arena.unchanged changes.only used' (by omega))
  have returned : s.dealloc ptr layout = some { t with
      usedSize := t.usedSize - (allocatedBlock s.memory ptr).2
      freeSize := t.freeSize + (allocatedBlock s.memory ptr).2 } := by
    simp only [HeapAllocator.dealloc, whole, some_bind]
    rw [if_pos asserted, show s.freeBlock (ptr - AllocatedHeapBlockInfo.prePadding s.memory
      (ptr - kernelHeapBlockInfoSize)) (AllocatedHeapBlockInfo.size s.memory
      (ptr - kernelHeapBlockInfoSize)) = some t from freed]
    exact FreeList.checked changes.list below
  refine ⟨_, blocks', returned, ⟨changes.list, allocated, ?_, ?_, ?_, ?_, ?_, ?_⟩, gains,
    sameBlocks, by rw [changes.rest], by rw [changes.rest]⟩
  · rw [sameBlocks, changes.rest]
    exact parted
  · rw [changes.rest]
    exact arena.nonzero
  · rw [changes.rest]
    exact arena.below
  · rw [changes.rest]
    exact arena.adjacent
  · rw [gains.total, changes.rest]
    simp only [arena.freeSize]
    omega
  · rw [sameBlocks, changes.rest]
    simp only
    omega

end

end Emerald.IncreasingHeapAllocator
