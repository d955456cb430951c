
import Emerald.IncreasingHeapAllocator.Proofs.HeapPartition

/-!
# When the best fit is too small

`alloc` chooses a free block by the size of the whole layout, and finds out from the address of the
block how much of it lies in front of the pointer. The info and the padding take at most 16 bytes
more than in the layout, and they do so in blocks that start 16 bytes in front of a multiple of the
alignment. Such a block is too small only if it has exactly the size of the layout.
-/

namespace Emerald.IncreasingHeapAllocator

open MemoryManagement (alignUp isAligned isAligned_two_pow dvd_alignUp le_alignUp alignUp_le page4K
  kernelHeapBase PageAllocator)
open HeapFreeBlock

/-! ## Offsets -/

/-- The start of the payload in a block that starts at a multiple of the alignment. -/
theorem wholeBlock_offset {layout : Layout} {bytes offset : Nat}
    (whole : wholeBlock layout = some (bytes, offset)) :
    offset = max kernelHeapBlockInfoSize layout.align := by
  simp only [wholeBlock, Layout.extend, Layout.blockInfo, bind_eq_some,
    Option.map_eq_some_iff] at whole
  obtain ⟨aligned, alignedIs, ⟨joined, _⟩, ⟨_, joinedIs, rfl, rfl⟩, rfl, rfl⟩ := whole
  obtain ⟨-, alignIs⟩ := fromSizeAlign_spec alignedIs
  obtain ⟨k, power⟩ := layout.power
  rw [alignIs, power]
  simp only [kernelHeapBlockInfoSize]
  rcases lt_or_ge k 6 with small | large
  · have few : k = 0 ∨ k = 1 ∨ k = 2 ∨ k = 3 ∨ k = 4 ∨ k = 5 := by omega
    rcases few with rfl | rfl | rfl | rfl | rfl | rfl <;> decide
  · have above : 2 ^ 6 ≤ 2 ^ k := Nat.pow_le_pow_right (by decide) large
    have least := le_alignUp 32 (Nat.two_pow_pos k)
    have up : alignUp 32 (2 ^ k) = 2 ^ k := le_antisymm
      (alignUp_le (Nat.two_pow_pos k) (dvd_refl _) (by omega))
      (Nat.le_of_dvd (by omega) (dvd_alignUp _ _))
    rw [max_eq_left (show 16 ≤ 2 ^ k by omega)]
    omega

/-- The distance to the next multiple of an alignment. -/
theorem alignUp_distance (base : Nat) {align : Nat} (pos : 0 < align) :
    ∃ distance, alignUp base align = base + distance ∧ distance < align ∧
      (base % align + distance = 0 ∨ base % align + distance = align) := by
  have least := le_alignUp base pos
  have most : alignUp base align < base + align := by
    unfold alignUp MemoryManagement.alignDown
    omega
  obtain ⟨q, next⟩ := dvd_alignUp base align
  refine ⟨alignUp base align - base, by omega, by omega, ?_⟩
  have rest := Nat.mod_lt base pos
  have dvd : align ∣ base % align + (alignUp base align - base) := by
    refine (Nat.dvd_add_right (Nat.dvd_sub_mod base)).mp ?_
    refine ⟨q, ?_⟩
    have := Nat.mod_le base align
    omega
  obtain ⟨k, sum⟩ := dvd
  have few : k = 0 ∨ k = 1 := by
    have : align * k < align * 2 := by omega
    have := Nat.lt_of_mul_lt_mul_left this
    omega
  rcases few with rfl | rfl
  · exact .inl (by omega)
  · exact .inr (by omega)

/-- The block starts 16 bytes in front of a multiple of the alignment, so that the info does not fit
in front of that, and the next multiple is further away than the layout has it. -/
def Tight (layout : Layout) (base : Nat) : Prop :=
  kernelHeapBlockInfoSize ≤ layout.align ∧ base % layout.align = layout.align - 16

instance (layout : Layout) (base : Nat) : Decidable (Tight layout base) :=
  inferInstanceAs (Decidable (_ ∧ _))

section
variable {base : Nat} {layout : Layout}

/-- How far the payload is from the start of its block, compared with the layout. -/
theorem blockOffset_spec (aligned : 16 ∣ base) :
    kernelHeapBlockInfoSize ≤ HeapAllocator.blockOffset base layout.align ∧
    layout.align ∣ base + HeapAllocator.blockOffset base layout.align ∧
    (Tight layout base → HeapAllocator.blockOffset base layout.align =
      max kernelHeapBlockInfoSize layout.align + 16) ∧
    (¬Tight layout base → HeapAllocator.blockOffset base layout.align ≤
      max kernelHeapBlockInfoSize layout.align) := by
  have pos := power_pos layout.power
  obtain ⟨distance, next, below, sum⟩ := alignUp_distance base pos
  have dvd : layout.align ∣ base + distance := next ▸ dvd_alignUp base layout.align
  have offsetIs : HeapAllocator.blockOffset base layout.align =
      if distance < kernelHeapBlockInfoSize then
        distance + max kernelHeapBlockInfoSize layout.align else distance := by
    simp only [HeapAllocator.blockOffset, next, Nat.add_sub_cancel_left]
  rw [offsetIs]
  simp only [Tight]
  rcases power_cases layout.power with sixteen | ⟨small, divides⟩
  · have dvdDistance : 16 ∣ distance :=
      (Nat.dvd_add_right aligned).mp (Nat.dvd_trans sixteen dvd)
    by_cases wide : kernelHeapBlockInfoSize ≤ layout.align
    · rw [Nat.max_eq_right wide]
      split
      · refine ⟨by omega, ?_, ?_, ?_⟩
        · rw [← Nat.add_assoc]
          exact Nat.dvd_add dvd (Nat.dvd_refl _)
        all_goals
          simp only [kernelHeapBlockInfoSize] at *
          omega
      · refine ⟨by omega, dvd, ?_, ?_⟩
        all_goals
          simp only [kernelHeapBlockInfoSize] at *
          omega
    · have zero : distance = 0 ∧ layout.align = 16 := by
        simp only [kernelHeapBlockInfoSize] at wide
        omega
      rw [zero.1, zero.2] at dvd ⊢
      refine ⟨by decide, Nat.dvd_add dvd (by decide), ?_, fun _ => by decide⟩
      exact fun tight => absurd tight.1 (by decide)
  · have zero : distance = 0 := by
      have := Nat.mod_eq_zero_of_dvd (Nat.dvd_trans divides aligned)
      omega
    have narrow : layout.align < kernelHeapBlockInfoSize := by
      simp only [kernelHeapBlockInfoSize]
      omega
    subst zero
    rw [if_pos (by decide), Nat.max_eq_left (Nat.le_of_lt narrow)]
    refine ⟨by omega, ?_, fun tight => ?_, fun _ => by omega⟩
    · exact Nat.dvd_add dvd (Nat.dvd_trans divides (by decide))
    · omega

/-- A block that starts at a page is not tight. -/
theorem not_tight_of_dvd (pages : 32 ∣ base) : ¬Tight layout base := by
  intro tight
  obtain ⟨wide, rest⟩ := tight
  obtain ⟨k, power⟩ := layout.power
  have five : 5 ≤ k := by
    apply Nat.le_of_not_lt
    intro small
    have : 2 ^ k < 2 ^ 5 := Nat.pow_lt_pow_right (by decide) small
    simp only [kernelHeapBlockInfoSize] at wide
    omega
  have dvdAlign : 32 ∣ layout.align := power ▸ Nat.pow_dvd_pow 2 five
  have dvdRest : 32 ∣ base % layout.align := (Nat.dvd_mod_iff dvdAlign).mpr pages
  simp only [kernelHeapBlockInfoSize] at wide
  omega

end

/-! ## The choice of a block -/

/-- The first free block of exactly some size. -/
def HeapAllocator.exactFit {π : Type} (s : HeapAllocator π) (bytes : Nat) : Option Nat :=
  s.iterFreeBlocks.bind fun blocks => blocks.find? fun block => decide (size s.memory block = bytes)

section
variable {m : HeapMemory} {wanted best : Nat} {nodes : List Nat}

/-- No block is better than one of exactly the size. -/
theorem bestBlock_of_exact (exact : size m best = wanted) (nonzero : best ≠ 0) :
    bestBlock m wanted nodes best = best := by
  induction nodes with
  | nil => rfl
  | cons x rest ih =>
    rw [bestBlock, if_neg, ih]
    intro better
    omega

theorem bestBlock_find_some {block : Nat} (nonzero : ∀ x ∈ nodes, x ≠ 0)
    (worse : best = 0 ∨ wanted < size m best)
    (first : nodes.find? (fun x => decide (size m x = wanted)) = some block) :
    bestBlock m wanted nodes best = block := by
  induction nodes generalizing best with
  | nil => simp at first
  | cons x rest ih =>
    have later : ∀ y ∈ rest, y ≠ 0 := fun y mem => nonzero y (List.mem_cons_of_mem x mem)
    rw [bestBlock]
    by_cases exact : size m x = wanted
    · rw [List.find?_cons_of_pos (by simpa using exact)] at first
      rw [if_pos (by omega), bestBlock_of_exact exact (nonzero x List.mem_cons_self)]
      exact Option.some.inj first
    · rw [List.find?_cons_of_neg (by simpa using exact)] at first
      split
      · exact ih later (.inr (by omega)) first
      · exact ih later worse first

theorem bestBlock_find_none (worse : best = 0 ∨ wanted < size m best)
    (none : nodes.find? (fun x => decide (size m x = wanted)) = none) :
    bestBlock m wanted nodes best = 0 ∨ wanted < size m (bestBlock m wanted nodes best) := by
  induction nodes generalizing best with
  | nil => exact worse
  | cons x rest ih =>
    have inexact : size m x ≠ wanted := by
      simpa using List.find?_eq_none.mp none x List.mem_cons_self
    rw [List.find?_cons_of_neg (by simpa using inexact)] at none
    rw [bestBlock]
    split
    · exact ih (.inr (by omega)) none
    · exact ih worse none

end

section
variable {π : Type} {pageSize : Nat} {allocatePages : π → Nat → Option (Nat × π)}
  {s t : HeapAllocator π} {live : List (Nat × Layout)} {blocks : List (Nat × Nat)}
variable {wanted : Nat}

theorem Arena.exactFit (arena : Arena allocatePages s live blocks) (bytes : Nat) :
    s.exactFit bytes =
      (blocks.map Prod.fst).find? fun block => decide (size s.memory block = bytes) := by
  rw [HeapAllocator.exactFit, arena.list.iterFreeBlocks arena.starts_below, Option.bind_some]

/-- The block `alloc` gets for a size. One of exactly this size was in the free list before, or it
starts at a page. -/
structure Chosen (s : HeapAllocator π) (wanted block bytes : Nat) : Prop where
  large : wanted ≤ bytes
  exact : bytes = wanted → s.exactFit wanted = some block ∨ 32 ∣ block
  first : ∀ e, s.exactFit wanted = some e → e = block ∧ bytes = wanted

/-- A search in the list as it is. -/
theorem Arena.chosen_found (arena : Arena allocatePages s live blocks)
    (some : bestBlock s.memory wanted (blocks.map Prod.fst) 0 ≠ 0) :
    ∃ bytes, (bestBlock s.memory wanted (blocks.map Prod.fst) 0, bytes) ∈ blocks ∧
      Chosen s wanted (bestBlock s.memory wanted (blocks.map Prod.fst) 0) bytes := by
  rcases bestBlock_spec 0 arena.list.sizes with none | ⟨b, mem, here, large⟩
  · exact absurd none some
  have sizeIs := arena.list.sizes b mem
  rw [here]
  refine ⟨b.2, mem, large, ?_, ?_⟩
  · intro exact
    refine .inl ?_
    rw [arena.exactFit]
    cases found : (blocks.map Prod.fst).find? fun x => decide (size s.memory x = wanted) with
    | none =>
      have inexact := bestBlock_find_none (.inl rfl) found
      rw [here] at inexact
      exact absurd inexact (by omega)
    | some e =>
      have first := bestBlock_find_some arena.list.linked.ne_zero (.inl rfl) found
      rw [← first, here]
  · intro e found
    have exact : size s.memory e = wanted := by
      rw [arena.exactFit] at found
      simpa using List.find?_some found
    rw [arena.exactFit] at found
    have first := bestBlock_find_some arena.list.linked.ne_zero (.inl rfl) found
    rw [here] at first
    rw [← first, sizeIs] at exact
    exact ⟨first.symm, exact⟩

/-- A search that finds nothing gets new pages, which are merged with a free block in front of
them. -/
theorem Arena.chosen_grown (provider : Adjacent pageSize allocatePages)
    (arena : Arena allocatePages s live blocks) (pos : 0 < wanted)
    (small : ∀ b ∈ blocks, b.2 < wanted)
    (supplied : (allocatePages s.pageAllocator (alignUp wanted pageSize / pageSize)).isSome) :
    ∃ block bytes r blocks', (s.allocateMorePages pageSize allocatePages
        (alignUp wanted pageSize / pageSize)).bind (fun r =>
          HeapAllocator.getFreeBlock pageSize allocatePages 1 r (alignUp wanted pageSize)) =
        some (block, r) ∧
      Arena allocatePages r live blocks' ∧ (block, bytes) ∈ blocks' ∧
      Chosen s wanted block bytes := by
  obtain ⟨dvdPage, largePage⟩ := provider.pageSize_dvd
  have pagePositive : 0 < pageSize := Nat.lt_of_le_of_lt (Nat.zero_le _) largePage
  have atLeast := le_alignUp wanted pagePositive
  have whole := Nat.div_mul_cancel (dvd_alignUp wanted pageSize)
  have some : 0 < alignUp wanted pageSize / pageSize :=
    Nat.div_pos (Nat.le_of_dvd (by omega) (dvd_alignUp wanted pageSize)) pagePositive
  obtain ⟨⟨new, p'⟩, given⟩ := Option.isSome_iff_exists.mp supplied
  obtain ⟨r, blocks', grown, total, arena', gains, -⟩ :=
    arena.allocateMorePages provider some given
  rw [whole] at gains
  have found : HeapAllocator.getFreeBlock pageSize allocatePages 1 r (alignUp wanted pageSize) =
      Option.some (bestBlock r.memory (alignUp wanted pageSize) (blocks'.map Prod.fst) 0, r) :=
    arena'.getFreeBlock_found total gains.room 0
  obtain ⟨b, room, roomLarge⟩ := gains.room
  have nonzero : bestBlock r.memory (alignUp wanted pageSize) (blocks'.map Prod.fst) 0 ≠ 0 := by
    refine bestBlock_ne_zero arena'.list.linked.ne_zero (.inr ⟨b.1, List.mem_map_of_mem room, ?_⟩)
    rw [arena'.list.sizes b room]
    exact roomLarge
  rw [grown, Option.bind_some, found]
  rcases bestBlock_spec 0 arena'.list.sizes with none | ⟨c, mem, here, large⟩
  · exact absurd none nonzero
  refine ⟨c.1, c.2, r, blocks', by rw [here], arena', mem, by omega, ?_, ?_⟩
  · intro exact
    refine .inr ?_
    rcases gains.fresh c mem with old | same | larger
    · exact absurd (small c old) (by omega)
    · obtain ⟨k, five, power⟩ := provider.pages
      have pages : 32 ∣ pageSize := power ▸ Nat.pow_dvd_pow 2 five
      rw [same]
      exact Nat.dvd_trans pages (provider.block _ _ _ _ given).1
    · omega
  · intro e exact
    rw [arena.exactFit] at exact
    have sizeIs := List.find?_some exact
    obtain ⟨d, old, rfl⟩ := List.mem_map.mp (List.mem_of_find?_eq_some exact)
    have := small d old
    rw [arena.list.sizes d old] at sizeIs
    exact absurd (of_decide_eq_true sizeIs) (by omega)

/-- The search for a block, with a provider that supplies the pages it asks for. -/
theorem Arena.chosen (provider : Adjacent pageSize allocatePages)
    (arena : Arena allocatePages s live blocks) (pos : 0 < wanted)
    (supplied : (allocatePages s.pageAllocator (alignUp wanted pageSize / pageSize)).isSome) :
    ∃ block bytes r blocks',
      HeapAllocator.getFreeBlock pageSize allocatePages 2 s wanted = some (block, r) ∧
      Arena allocatePages r live blocks' ∧ (block, bytes) ∈ blocks' ∧
      Chosen s wanted block bytes := by
  rw [HeapAllocator.getFreeBlock]
  simp only [Option.bind_eq_bind]
  by_cases empty : s.totalHeapSize = 0
  · rw [if_pos empty]
    obtain ⟨rfl, rfl⟩ := arena.empty empty
    exact arena.chosen_grown provider pos (by simp) supplied
  · rw [if_neg empty, arena.list.iterFreeBlocks arena.starts_below, Option.bind_some]
    by_cases none : bestBlock s.memory wanted (blocks.map Prod.fst) 0 = 0
    · rw [if_pos none]
      refine arena.chosen_grown provider pos ?_ supplied
      intro b mem
      apply Nat.lt_of_not_le
      intro large
      refine bestBlock_ne_zero arena.list.linked.ne_zero (.inr ⟨b.1, ?_, ?_⟩) none
      · exact List.mem_map_of_mem mem
      · rw [arena.list.sizes b mem]
        exact large
    · rw [if_neg none]
      obtain ⟨bytes, mem, chosen⟩ := arena.chosen_found none
      exact ⟨_, bytes, s, blocks, rfl, arena, mem, chosen⟩

/-! ## `alloc` -/

/-- `alloc` in a block fails if that has exactly the size of the layout and is tight. -/
theorem Arena.allocIn_iff (arena : Arena allocatePages s live blocks) {layout : Layout}
    {block bytes allocationSize offsetFromHeader : Nat} (mem : (block, bytes) ∈ blocks)
    (large : allocationSize ≤ bytes)
    (whole : wholeBlock layout = some (allocationSize, offsetFromHeader)) :
    (∃ ptr t, s.allocIn layout block allocationSize offsetFromHeader = some (ptr, t)) ↔
      ¬(bytes = allocationSize ∧ Tight layout block) := by
  obtain ⟨dvdSize, dvdOffset, infoOffset, roomOffset⟩ := wholeBlock_spec whole
  obtain ⟨dvdBlock, dvdBytes, -⟩ : 16 ∣ block ∧ 16 ∣ bytes ∧ heapFreeBlockSize < bytes :=
    arena.list.shape _ mem
  obtain ⟨info, dvd, tight, loose⟩ := @blockOffset_spec _ layout dvdBlock
  rw [← wholeBlock_offset whole] at tight loose
  have sizeIs : size s.memory block = bytes := arena.list.sizes _ mem
  have dvdBlockOffset := @dvd_blockOffset layout _ dvdBlock
  have alignedBlock : isAligned block Layout.blockInfo.align = true :=
    (isAligned_two_pow block 4).mpr dvdBlock
  simp only [HeapAllocator.allocIn, sizeIs]
  generalize HeapAllocator.blockOffset block layout.align = offset at *
  by_cases bad : bytes = allocationSize ∧ Tight layout block
  · have offsetIs := tight bad.2
    rw [if_neg (by omega)]
    simp [bad]
  · have fits : allocationSize + (offset - offsetFromHeader) ≤ bytes := by
      by_cases narrow : Tight layout block
      · have : bytes ≠ allocationSize := fun same => bad ⟨same, narrow⟩
        have := tight narrow
        omega
      · have := loose narrow
        omega
    obtain ⟨taken, r, node, blocks', takes, checks, -⟩ := arena.takeBlock mem
      (dvd_add dvdSize (Nat.dvd_sub dvdBlockOffset dvdOffset)) (by omega) fits
    have alignedPtr : isAligned (block + offset) layout.align = true := by
      obtain ⟨k, power⟩ := layout.power
      rw [power] at dvd ⊢
      exact (isAligned_two_pow _ k).mpr dvd
    rw [if_pos ⟨alignedBlock, info, fits⟩]
    simp only [takes, checks, some_bind]
    rw [if_pos alignedPtr]
    exact ⟨fun _ => bad, fun _ => ⟨_, _, rfl⟩⟩

/-- With a provider that supplies the pages it is asked for, `alloc` returns unless the first free
block of exactly the size of the layout is tight. -/
theorem alloc_returns_iff_not_tight (provider : Adjacent pageSize allocatePages) (h : Heap π)
    (reached : h.Reached pageSize allocatePages) (layout : Layout) (bytes offset : Nat)
    (padded : wholeBlock layout = some (bytes, offset))
    (supplied : (allocatePages h.allocator.pageAllocator
      (alignUp bytes pageSize / pageSize)).isSome) :
    (∃ ptr t, h.allocator.alloc pageSize allocatePages layout = some (ptr, t) ∧ ptr ≠ 0) ↔
      ∀ block, h.allocator.exactFit bytes = some block → ¬Tight layout block := by
  obtain ⟨blocks, arena⟩ := Heap.arena_of_reached provider h reached
  have pos : 0 < bytes := by
    have := wholeBlock_spec padded
    simp only [kernelHeapBlockInfoSize] at this
    omega
  obtain ⟨block, found, r, blocks', search, arena', mem, chosen⟩ :=
    arena.chosen provider pos supplied
  have nonzero : block ≠ 0 := arena'.list.linked.ne_zero block (List.mem_map_of_mem mem)
  have runs : h.allocator.alloc pageSize allocatePages layout =
      r.allocIn layout block bytes offset := by
    simp only [HeapAllocator.alloc, padded, search, some_bind]
    rw [if_neg nonzero]
  have inBlock := arena'.allocIn_iff mem chosen.large padded
  rw [runs]
  constructor
  · intro returned e exact tight
    obtain ⟨ptr, t, returned, -⟩ := returned
    obtain ⟨rfl, same⟩ := chosen.first e exact
    exact inBlock.mp ⟨ptr, t, returned⟩ ⟨same, tight⟩
  · intro fine
    have good : ¬(found = bytes ∧ Tight layout block) := by
      intro bad
      rcases chosen.exact bad.1 with exact | page
      · exact fine block exact bad.2
      · exact not_tight_of_dvd page bad.2
    obtain ⟨ptr, t, returned⟩ := inBlock.mpr good
    exact ⟨ptr, t, returned, (arena'.allocIn mem padded returned).1⟩

end

/-- Three allocations in the kernel heap, of which the second one is freed again. Its block of 64
bytes starts at 48. -/
def tightCalls : List Call := threeCalls ++ [.dealloc (kernelHeapBase + 0x50) .blockInfo]

/-- A layout of 64 bytes with its info gets the block at 48, which is 16 bytes too short for the
alignment of 32: `alloc` panics, though the provider has pages left. -/
theorem alloc_panics_in_tight_block :
    ∃ h : Heap PageAllocator, h.Reached page4K PageAllocator.allocatePages ∧
      wholeBlock ⟨32, 32, ⟨5, rfl⟩, by decide⟩ = some (64, 32) ∧
      (PageAllocator.allocatePages h.allocator.pageAllocator
        (alignUp 64 page4K / page4K)).isSome ∧
      (h.allocator.alloc page4K PageAllocator.allocatePages
        ⟨32, 32, ⟨5, rfl⟩, by decide⟩).isNone :=
  Heap.reached_of_run tightCalls _ (by decide +kernel)

/-- In the same state a layout of 96 bytes with its info gets a larger block. -/
theorem alloc_returns_kernelHeap :
    ∃ h : Heap PageAllocator, h.Reached page4K PageAllocator.allocatePages ∧
      ∃ ptr t, h.allocator.alloc page4K PageAllocator.allocatePages
        ⟨64, 32, ⟨5, rfl⟩, by decide⟩ = some (ptr, t) ∧ ptr ≠ 0 := by
  obtain ⟨h, reached, supplied, none⟩ := Heap.reached_of_run tightCalls (fun h =>
    (PageAllocator.allocatePages h.allocator.pageAllocator (alignUp 96 page4K / page4K)).isSome ∧
      h.allocator.exactFit 96 = none) (by decide +kernel)
  refine ⟨h, reached, (alloc_returns_iff_not_tight adjacent_kernelHeap h reached
    ⟨64, 32, ⟨5, rfl⟩, by decide⟩ 96 32 (by decide) supplied).mpr ?_⟩
  intro block exact
  rw [none] at exact
  cases exact

end Emerald.IncreasingHeapAllocator
