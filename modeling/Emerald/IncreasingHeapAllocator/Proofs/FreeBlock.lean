
import Emerald.IncreasingHeapAllocator.Proofs.ListChanges

/-!
# Freeing a block

`freeBlock_spec`: a block that overlaps no free block goes into the list. It becomes one block with
the free blocks it touches, and the list covers what it covered before and the freed block.
-/

namespace Emerald.IncreasingHeapAllocator

open HeapFreeBlock

variable {front prevs nexts back : List (Nat × Nat)}

/-! ## The search for the neighbours -/

section
variable {m : HeapMemory} {start stop nextBlock : Nat} {blocks : List (Nat × Nat)}

theorem lookAround_append (xs ys : List Nat) (around : Around) :
    lookAround m start stop (xs ++ ys) around =
      (lookAround m start stop xs around).bind (lookAround m start stop ys) := by
  induction xs generalizing around with
  | nil => rfl
  | cons x xs ih =>
    simp only [List.cons_append, lookAround, ih]
    split
    · rfl
    · split <;> rfl

/-- The blocks that end before the freed one are passed over: the last of them is the closest. -/
theorem lookAround_before (ordered : start ≤ stop) (sizes : ∀ b ∈ blocks, size m b.1 = b.2)
    (left : ∀ b ∈ blocks, b.1 + b.2 < start)
    (apart : blocks.Pairwise fun a b => a.1 + a.2 < b.1) (prevBlock nextBlock closest : Nat)
    (closer : ∀ b ∈ blocks, closest = 0 ∨ closest < b.1) :
    lookAround m start stop (blocks.map Prod.fst) ⟨prevBlock, nextBlock, closest⟩ =
      some ⟨prevBlock, nextBlock, (blocks.map Prod.fst).getLast?.getD closest⟩ := by
  induction blocks generalizing closest with
  | nil => rfl
  | cons b rest ih =>
    obtain ⟨before, apart⟩ := List.pairwise_cons.mp apart
    have here := left b (by simp)
    have closerHere := closer b (by simp)
    have visit : Around.visit ⟨prevBlock, nextBlock, closest⟩ m start stop b.1 =
        ⟨prevBlock, nextBlock, b.1⟩ := by
      simp only [Around.visit, sizes b (by simp)]
      rw [if_neg (by omega), if_neg (by omega), if_pos (by omega)]
    rw [List.map_cons, lookAround, if_neg (by omega), sizes b (by simp), if_pos (by omega), visit,
      ih (fun c mem => sizes c (by simp [mem])) (fun c mem => left c (by simp [mem]))
        apart b.1 (fun c mem => ?_), List.getLast?_cons]
    · rfl
    · have := before c mem
      omega

/-- The blocks that start after the freed one are passed over. -/
theorem lookAround_after (ordered : start ≤ stop) (right : ∀ b ∈ blocks, stop < b.1)
    (around : Around) :
    lookAround m start stop (blocks.map Prod.fst) around = some around := by
  induction blocks with
  | nil => rfl
  | cons b rest ih =>
    have here := right b (by simp)
    have visit : around.visit m start stop b.1 = around := by
      simp only [Around.visit]
      rw [if_neg (by omega), if_neg (by omega), if_neg (by omega)]
    rw [List.map_cons, lookAround, if_neg (by omega), if_pos (by omega), visit,
      ih (fun c mem => right c (by simp [mem]))]

/-- The block that the freed one continues. -/
theorem lookAround_prev {block closest : Nat} (ends : block + size m block = start)
    (pos : 0 < size m block) (closer : closest = 0 ∨ closest < block) :
    lookAround m start stop [block] ⟨0, nextBlock, closest⟩ =
      some ⟨block, nextBlock, block⟩ := by
  have visit : Around.visit ⟨0, nextBlock, closest⟩ m start stop block =
      ⟨block, nextBlock, block⟩ := by
    simp only [Around.visit]
    rw [if_pos ends, if_neg (fun here => here.1 ends), if_pos (by omega)]
  rw [lookAround, if_neg (by omega), if_pos (by omega), visit, lookAround]

/-- The block that continues the freed one. -/
theorem lookAround_next {prevBlock closest : Nat} (ordered : start < stop) :
    lookAround m start stop [stop] ⟨prevBlock, nextBlock, closest⟩ =
      some ⟨prevBlock, stop, closest⟩ := by
  have visit : Around.visit ⟨prevBlock, nextBlock, closest⟩ m start stop stop =
      ⟨prevBlock, stop, closest⟩ := by
    simp only [Around.visit]
    rw [if_neg (by omega), if_pos ⟨by omega, trivial⟩, if_neg (by omega)]
  rw [lookAround, if_neg (by omega), if_pos (by omega), visit, lookAround]

end

/-- The place of a block in a list that it does not overlap: the blocks before it, the one that ends
at its start, the one that starts at its end and the blocks after it. -/
structure Place (start freed : Nat) (front prevs nexts back : List (Nat × Nat)) : Prop where
  left : ∀ b ∈ front, b.1 + b.2 < start
  right : ∀ b ∈ back, start + freed < b.1
  prevs : prevs = [] ∨ ∃ p bytes, prevs = [(p, bytes)] ∧ p + bytes = start
  nexts : nexts = [] ∨ ∃ bytes, nexts = [(start + freed, bytes)]

section
variable {m : HeapMemory} {first start freed : Nat} {blocks : List (Nat × Nat)}

/-- The blocks before a block and those after it. -/
theorem exists_split (ordered : blocks.Pairwise fun a b => a.1 + a.2 < b.1)
    (apart : ∀ b ∈ blocks, b.1 + b.2 ≤ start ∨ start + freed ≤ b.1) :
    ∃ xs ys, blocks = xs ++ ys ∧ (∀ b ∈ xs, b.1 + b.2 ≤ start) ∧ ∀ b ∈ ys, start + freed ≤ b.1 := by
  induction blocks with
  | nil => exact ⟨[], [], rfl, by simp, by simp⟩
  | cons b rest ih =>
    obtain ⟨before, ordered⟩ := List.pairwise_cons.mp ordered
    rcases apart b (by simp) with left | right
    · obtain ⟨xs, ys, rfl, lefts, rights⟩ := ih ordered (fun c mem => apart c (by simp [mem]))
      refine ⟨b :: xs, ys, rfl, ?_, rights⟩
      simpa [left] using lefts
    · refine ⟨[], b :: rest, rfl, by simp, ?_⟩
      intro c mem
      rcases List.mem_cons.mp mem with rfl | later
      · exact right
      · have := before c later
        omega

theorem FreeList.place (list : FreeList m first blocks)
    (apart : ∀ b ∈ blocks, b.1 + b.2 ≤ start ∨ start + freed ≤ b.1) :
    ∃ front prevs nexts back, blocks = front ++ prevs ++ nexts ++ back ∧
      Place start freed front prevs nexts back := by
  obtain ⟨xs, ys, rfl, lefts, rights⟩ := exists_split list.apart apart
  obtain ⟨ordered, orderedAfter, -⟩ := List.pairwise_append.mp list.apart
  have before : ∃ front prevs, xs = front ++ prevs ∧ (∀ b ∈ front, b.1 + b.2 < start) ∧
      (prevs = [] ∨ ∃ p bytes, prevs = [(p, bytes)] ∧ p + bytes = start) := by
    rcases List.eq_nil_or_concat xs with rfl | ⟨front, b, rfl⟩
    · exact ⟨[], [], rfl, by simp, .inl rfl⟩
    · rw [List.concat_eq_append] at *
      have early : ∀ c ∈ front, c.1 + c.2 < start := by
        intro c mem
        have := (List.pairwise_append.mp ordered).2.2 c mem b (by simp)
        have := lefts b (by simp)
        omega
      by_cases touches : b.1 + b.2 = start
      · exact ⟨front, [b], rfl, early, .inr ⟨b.1, b.2, rfl, touches⟩⟩
      · refine ⟨front ++ [b], [], by simp, ?_, .inl rfl⟩
        intro c mem
        have := lefts c mem
        rcases List.mem_append.mp mem with mem | here
        · exact early c mem
        · rw [List.mem_singleton.mp here] at this ⊢
          omega
  have after : ∃ nexts back, ys = nexts ++ back ∧ (∀ b ∈ back, start + freed < b.1) ∧
      (nexts = [] ∨ ∃ bytes, nexts = [(start + freed, bytes)]) := by
    cases ys with
    | nil => exact ⟨[], [], rfl, by simp, .inl rfl⟩
    | cons b back =>
      have late : ∀ c ∈ back, start + freed < c.1 := by
        intro c mem
        have := (List.pairwise_cons.mp orderedAfter).1 c mem
        have := rights b (by simp)
        omega
      by_cases touches : b.1 = start + freed
      · exact ⟨[b], back, rfl, late, .inr ⟨b.2, by rw [← touches]⟩⟩
      · refine ⟨[], b :: back, rfl, ?_, .inl rfl⟩
        intro c mem
        have := rights c mem
        rcases List.mem_cons.mp mem with rfl | later
        · omega
        · exact late c later
  obtain ⟨front, prevs, rfl, left, prevsAre⟩ := before
  obtain ⟨nexts, back, rfl, right, nextsAre⟩ := after
  exact ⟨front, prevs, nexts, back, by simp, left, right, prevsAre, nextsAre⟩

/-- What the loop of `free_block` finds. -/
theorem FreeList.lookAround (list : FreeList m first (front ++ prevs ++ nexts ++ back))
    (place : Place start freed front prevs nexts back) (pos : 0 < freed) :
    lookAround m start (start + freed) ((front ++ prevs ++ nexts ++ back).map Prod.fst) ⟨0, 0, 0⟩ =
      some ⟨firstOf (prevs.map Prod.fst), firstOf (nexts.map Prod.fst),
        lastOf ((front ++ prevs).map Prod.fst)⟩ := by
  have ordered := list.apart
  simp only [List.pairwise_append] at ordered
  have frontPart : IncreasingHeapAllocator.lookAround m start (start + freed)
      (front.map Prod.fst) ⟨0, 0, 0⟩ = some ⟨0, 0, lastOf (front.map Prod.fst)⟩ :=
    lookAround_before (by omega) (fun b mem => list.sizes b (by simp [mem])) place.left
      ordered.1.1.1 0 0 0 (fun b _ => .inl rfl)
  have prevPart : IncreasingHeapAllocator.lookAround m start (start + freed) (prevs.map Prod.fst)
      ⟨0, 0, lastOf (front.map Prod.fst)⟩ =
      some ⟨firstOf (prevs.map Prod.fst), 0, lastOf ((front ++ prevs).map Prod.fst)⟩ := by
    rcases place.prevs with rfl | ⟨p, bytes, rfl, ends⟩
    · rw [List.append_nil]
      rfl
    · have mem : (p, bytes) ∈ front ++ [(p, bytes)] ++ nexts ++ back := by simp
      have sizeIs : size m p = bytes := list.sizes _ mem
      have large : heapFreeBlockSize < bytes := (list.shape _ mem).2.2
      rw [List.map_append, List.map_singleton, lastOf_concat]
      change IncreasingHeapAllocator.lookAround m start (start + freed) [p] _ = some ⟨p, 0, p⟩
      refine lookAround_prev (by omega) (by omega) ?_
      rcases List.eq_nil_or_concat front with rfl | ⟨init, b, rfl⟩
      · exact .inl rfl
      · rw [List.concat_eq_append] at *
        rw [List.map_append, List.map_singleton, lastOf_concat]
        have := ordered.1.1.2.2 b (by simp) (p, bytes) (by simp)
        exact .inr (by omega)
  have nextPart : ∀ prevBlock closest, IncreasingHeapAllocator.lookAround m start (start + freed)
      (nexts.map Prod.fst) ⟨prevBlock, 0, closest⟩ =
      some ⟨prevBlock, firstOf (nexts.map Prod.fst), closest⟩ := by
    intro prevBlock closest
    rcases place.nexts with rfl | ⟨bytes, rfl⟩
    · rfl
    · exact lookAround_next (by omega)
  generalize lastOf ((front ++ prevs).map Prod.fst) = closest at prevPart ⊢
  simp only [List.map_append, lookAround_append, frontPart, prevPart, nextPart, Option.bind_some]
  exact lookAround_after (by omega) place.right _

end

/-! ## `free_block` -/

/-- Blocks that cover what others do, and one more block. One of them is as large as that, and those
that are new are that block or larger. -/
structure Gains (block : Nat × Nat) (blocks blocks' : List (Nat × Nat)) : Prop where
  covers : ∀ x, cover Prod.fst Prod.snd x blocks' = cover Prod.fst Prod.snd x (block :: blocks)
  total : (blocks'.map Prod.snd).sum = block.2 + (blocks.map Prod.snd).sum
  room : ∃ b ∈ blocks', block.2 ≤ b.2
  fresh : ∀ b ∈ blocks', b ∈ blocks ∨ b = block ∨ block.2 < b.2

section
variable {π : Type} {s : HeapAllocator π} {start freed : Nat} {blocks : List (Nat × Nat)}

/-- The freed block merged with the blocks it touches covers the same. -/
theorem gains_merged {node bytes : Nat} (covers : ∀ x, cover Prod.fst Prod.snd x [(node, bytes)] =
      cover Prod.fst Prod.snd x ((start, freed) :: (prevs ++ nexts)))
    (total : bytes = freed + ((prevs ++ nexts).map Prod.snd).sum)
    (larger : (node, bytes) = (start, freed) ∨ freed < bytes) :
    Gains (start, freed) (front ++ prevs ++ nexts ++ back) (front ++ [(node, bytes)] ++ back) := by
  refine ⟨?_, ?_, ⟨(node, bytes), by simp, by simp only; omega⟩, ?_⟩
  · intro x
    have same := covers x
    simp only [cover_append, cover_cons] at same ⊢
    omega
  · simp only [List.map_append, List.sum_append, List.map_singleton, List.sum_singleton] at total ⊢
    omega
  · intro b mem
    simp only [List.mem_append, List.mem_singleton] at mem ⊢
    rcases mem with (before | rfl) | after
    · exact .inl (by simp [before])
    · exact .inr larger
    · exact .inl (by simp [after])

theorem putFree_both {p n c : Nat} (someP : p ≠ 0) (someN : n ≠ 0) :
    s.putFree start freed ⟨p, n, c⟩ = s.mergeBoth p n freed := by
  simp [HeapAllocator.putFree, someP, someN]

theorem putFree_prev {p c : Nat} (some : p ≠ 0) :
    s.putFree start freed ⟨p, 0, c⟩ = s.mergePrev p freed := by
  simp [HeapAllocator.putFree, some]

theorem putFree_next {n c : Nat} (some : n ≠ 0) :
    s.putFree start freed ⟨0, n, c⟩ = s.mergeNext start n freed := by
  simp [HeapAllocator.putFree, some]

/-- Each of the four ways keeps the list. -/
theorem putFree_spec (list : FreeList s.memory s.freeListAddr (front ++ prevs ++ nexts ++ back))
    (place : Place start freed front prevs nexts back) (nonzero : start ≠ 0)
    (shape : 16 ∣ start ∧ 16 ∣ freed ∧ heapFreeBlockSize < freed) :
    ∃ blocks', Changes start (front ++ prevs ++ nexts ++ back) blocks' s
        (s.putFree start freed ⟨firstOf (prevs.map Prod.fst), firstOf (nexts.map Prod.fst),
          lastOf ((front ++ prevs).map Prod.fst)⟩) ∧
      Gains (start, freed) (front ++ prevs ++ nexts ++ back) blocks' := by
  rcases place.prevs with rfl | ⟨p, bytes, rfl, ends⟩
  · rcases place.nexts with rfl | ⟨above, rfl⟩
    · refine ⟨front ++ [(start, freed)] ++ back, ?_, gains_merged ?_ ?_ (.inl rfl)⟩
      · simp only [List.append_nil] at list ⊢
        exact list.insertFree nonzero place.left place.right shape
      · simp
      · simp
    · have above0 : start + freed ≠ 0 := by omega
      have largeAbove : heapFreeBlockSize < above :=
        (list.shape (start + freed, above) (by simp)).2.2
      refine ⟨front ++ [(start, above + freed)] ++ back, ?_, gains_merged ?_ ?_ (.inr (by omega))⟩
      · simp only [List.append_nil] at list ⊢
        change Changes _ _ _ s (s.putFree start freed ⟨0, start + freed, _⟩)
        rw [putFree_next above0]
        exact list.mergeNext nonzero place.left shape
      · intro x
        simp only [cover_cons, List.nil_append]
        split <;> split <;> split <;> omega
      · simp
        omega
  · have nonzeroP : p ≠ 0 := list.linked.ne_zero p (by simp)
    have largeP : heapFreeBlockSize < bytes := (list.shape (p, bytes) (by simp)).2.2
    rcases place.nexts with rfl | ⟨above, rfl⟩
    · refine ⟨front ++ [(p, bytes + freed)] ++ back, ?_, gains_merged ?_ ?_ (.inr (by omega))⟩
      · simp only [List.append_nil] at list ⊢
        have right : ∀ b ∈ back, p + (bytes + freed) < b.1 := by
          intro b mem
          have := place.right b mem
          omega
        change Changes _ _ _ s (s.putFree start freed ⟨p, 0, _⟩)
        rw [putFree_prev nonzeroP]
        exact list.mergePrev right shape.2.1
      · intro x
        simp only [cover_cons, List.append_nil]
        split <;> split <;> split <;> omega
      · simp
        omega
    · subst ends
      refine ⟨front ++ [(p, bytes + (freed + above))] ++ back, ?_,
        gains_merged ?_ ?_ (.inr (by omega))⟩
      · have regroup : front ++ [(p, bytes)] ++ [(p + bytes + freed, above)] ++ back =
            front ++ [(p, bytes), (p + bytes + freed, above)] ++ back := by simp
        change Changes _ _ _ s (s.putFree (p + bytes) freed ⟨p, p + bytes + freed, _⟩)
        rw [putFree_both nonzeroP (by omega)]
        rw [regroup] at list ⊢
        exact list.mergeBoth shape.2.1
      · intro x
        simp only [cover_cons, List.singleton_append]
        split <;> split <;> split <;> split <;> omega
      · simp
        omega

section
variable (list : FreeList s.memory s.freeListAddr blocks) (below : ∀ b ∈ blocks, b.1 < 2 ^ 64)
  (inside : start + freed ≤ s.heapStart + s.totalHeapSize) (nonzero : start ≠ 0)
  (shape : 16 ∣ start ∧ 16 ∣ freed ∧ heapFreeBlockSize < freed)
  (apart : ∀ b ∈ blocks, b.1 + b.2 ≤ start ∨ start + freed ≤ b.1)
include list below inside nonzero shape apart

theorem freeBlock_spec :
    ∃ t blocks', s.freeBlock start freed = some t ∧ Changes start blocks blocks' s t ∧
      Gains (start, freed) blocks blocks' := by
  obtain ⟨front, prevs, nexts, back, rfl, place⟩ := list.place apart
  have found := list.lookAround place (by omega)
  obtain ⟨blocks', changes, gains⟩ := putFree_spec list place nonzero shape
  refine ⟨_, blocks', ?_, changes, gains⟩
  simp only [HeapAllocator.freeBlock, list.iterFreeBlocks below, found, some_bind]
  rw [if_pos (by omega)]

variable (start freed) in
/-- New pages go into the list as a freed block does. -/
theorem addPages_spec :
    ∃ t blocks', s.addPages start freed = some t ∧ Changes start blocks blocks' s t ∧
      Gains (start, freed) blocks blocks' := by
  by_cases empty : s.freeListAddr = 0
  · have none : blocks = [] := by
      obtain ⟨last, segment⟩ := list.linked
      cases blocks with
      | nil => rfl
      | cons b rest => exact absurd (segment.1.symm.trans empty) segment.2.1
    subst none
    have only : s.addPages start freed = some (s.insertFree start 0 freed) := by
      have next0 : ∀ m : HeapMemory, next (setSize (setNext m start 0) start freed) start = 0 := by
        intro m
        rw [next_setSize (.inl rfl), next_setNext, if_pos rfl]
      simp [HeapAllocator.addPages, HeapAllocator.insertFree, empty, next0, setPrevOf]
    have placed : Place start freed [] [] [] [] :=
      ⟨by simp, by simp, .inl rfl, .inl rfl⟩
    obtain ⟨blocks', changes, gains⟩ := putFree_spec list placed nonzero shape
    exact ⟨_, blocks', only, changes, gains⟩
  · rw [HeapAllocator.addPages, if_neg empty]
    exact freeBlock_spec list below inside nonzero shape apart

end

end

end Emerald.IncreasingHeapAllocator
