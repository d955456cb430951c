
import Emerald.IncreasingHeapAllocator.Proofs.CycleCheck
import Emerald.Misc.DoublyLinked
import Emerald.Misc.Partition

/-!
# The free list

`FreeList` is what the properties of the list come down to: the headers link the
blocks in increasing order of their addresses, and no two of them touch. The ways `alloc` takes a
block out of the list and `free_block` puts one into it keep it.
-/

namespace Emerald.IncreasingHeapAllocator

open HeapFreeBlock

/-! ## Headers -/

/-- The headers at two addresses are the same one or do not overlap. -/
def Clear (a b : Nat) : Prop := a = b ∨ a + heapFreeBlockSize ≤ b ∨ b + heapFreeBlockSize ≤ a

theorem Clear.symm {a b : Nat} (clear : Clear a b) : Clear b a := by
  unfold Clear at *
  omega

section
variable {m : HeapMemory} {a b v : Nat}

theorem prev_setPrev : prev (setPrev m a v) b = if b = a then v else prev m b := rfl

theorem next_setNext : next (setNext m a v) b = if b = a then v else next m b := by
  simp [next, setNext, HeapMemory.write]

theorem size_setSize : size (setSize m a v) b = if b = a then v else size m b := by
  simp [size, setSize, HeapMemory.write]

section
variable (clear : Clear a b)
include clear

theorem next_setPrev : next (setPrev m a v) b = next m b := by
  simp only [Clear, heapFreeBlockSize] at clear
  exact if_neg (by omega)

theorem size_setPrev : size (setPrev m a v) b = size m b := by
  simp only [Clear, heapFreeBlockSize] at clear
  exact if_neg (by omega)

theorem prev_setNext : prev (setNext m a v) b = prev m b := by
  simp only [Clear, heapFreeBlockSize] at clear
  exact if_neg (by omega)

theorem size_setNext : size (setNext m a v) b = size m b := by
  simp only [Clear, heapFreeBlockSize] at clear
  exact if_neg (by omega)

theorem prev_setSize : prev (setSize m a v) b = prev m b := by
  simp only [Clear, heapFreeBlockSize] at clear
  exact if_neg (by omega)

theorem next_setSize : next (setSize m a v) b = next m b := by
  simp only [Clear, heapFreeBlockSize] at clear
  exact if_neg (by omega)

end

theorem prev_setPrevOf :
    prev (setPrevOf m a v) b = if a ≠ 0 ∧ b = a then v else prev m b := by
  unfold setPrevOf
  by_cases zero : a = 0 <;> simp [zero, prev_setPrev]

theorem next_setPrevOf (clear : a ≠ 0 → Clear a b) : next (setPrevOf m a v) b = next m b := by
  unfold setPrevOf
  split
  · rename_i some
    exact next_setPrev (clear some)
  · rfl

theorem size_setPrevOf (clear : a ≠ 0 → Clear a b) : size (setPrevOf m a v) b = size m b := by
  unfold setPrevOf
  split
  · rename_i some
    exact size_setPrev (clear some)
  · rfl

variable {π : Type} {s : HeapAllocator π}

theorem prev_linkFrom (clear : a ≠ 0 → Clear a b) :
    prev (s.linkFrom a v).memory b = prev s.memory b := by
  unfold HeapAllocator.linkFrom
  split
  · rename_i some
    exact prev_setNext (clear some)
  · rfl

theorem next_linkFrom :
    next (s.linkFrom a v).memory b = if a ≠ 0 ∧ b = a then v else next s.memory b := by
  unfold HeapAllocator.linkFrom
  by_cases zero : a = 0 <;> simp [zero, next_setNext]

theorem size_linkFrom (clear : a ≠ 0 → Clear a b) :
    size (s.linkFrom a v).memory b = size s.memory b := by
  unfold HeapAllocator.linkFrom
  split
  · rename_i some
    exact size_setNext (clear some)
  · rfl

end

/-! ## The list -/

/-- The free blocks, by their starts and sizes. -/
structure FreeList (memory : HeapMemory) (first : Nat) (blocks : List (Nat × Nat)) : Prop where
  linked : Linked prev next memory first (blocks.map Prod.fst)
  sizes : ∀ b ∈ blocks, size memory b.1 = b.2
  apart : blocks.Pairwise fun a b => a.1 + a.2 < b.1
  shape : ∀ b ∈ blocks, 16 ∣ b.1 ∧ 16 ∣ b.2 ∧ heapFreeBlockSize < b.2

section
variable {m m' : HeapMemory} {first last start : Nat} {blocks : List (Nat × Nat)} {nodes : List Nat}

section
variable (list : FreeList m first blocks)
include list

theorem FreeList.distinct : (blocks.map Prod.fst).Nodup := by
  rw [List.Nodup, List.pairwise_map]
  refine list.apart.imp ?_
  intro a b less
  omega

/-- The headers of a list do not overlap. -/
theorem FreeList.clear {a b : Nat × Nat} (memberA : a ∈ blocks)
    (memberB : b ∈ blocks) : Clear a.1 b.1 := by
  have sizeA := (list.shape a memberA).2.2
  have sizeB := (list.shape b memberB).2.2
  by_cases same : a = b
  · exact .inl (congrArg Prod.fst same)
  · have apart : a.1 + a.2 < b.1 ∨ b.1 + b.2 < a.1 := by
      have : Std.Symm fun a b : Nat × Nat => a.1 + a.2 < b.1 ∨ b.1 + b.2 < a.1 :=
        ⟨fun _ _ => Or.symm⟩
      have ordered : blocks.Pairwise fun a b => a.1 + a.2 < b.1 ∨ b.1 + b.2 < a.1 :=
        list.apart.imp .inl
      exact ordered.forall memberA memberB same
    unfold Clear
    omega

/-- A list depends only on its headers. -/
theorem FreeList.congr
    (same : ∀ b ∈ blocks, ∀ a, b.1 ≤ a → a < b.1 + heapFreeBlockSize → m' a = m a) :
    FreeList m' first blocks := by
  have word : ∀ b ∈ blocks, ∀ k < heapFreeBlockSize, m' (b.1 + k) = m (b.1 + k) :=
    fun b mem k short => same b mem _ (by omega) (by omega)
  have links : ∀ x ∈ blocks.map Prod.fst, prev m' x = prev m x ∧ next m' x = next m x := by
    intro x here
    obtain ⟨b, mem, rfl⟩ := List.mem_map.mp here
    exact ⟨word b mem 0 (by decide), word b mem 8 (by decide)⟩
  refine ⟨?_, ?_, list.apart, list.shape⟩
  · exact list.linked.congr (fun x here => (links x here).1) (fun x here => (links x here).2)
  · intro b mem
    rw [← list.sizes b mem]
    exact word b mem 16 (by decide)

end

/-! ## Walks -/

/-- The walk along `next` yields the linked blocks. -/
theorem freeBlocksFrom_segment {limit before : Nat}
    (segment : Segment prev next m before start nodes last 0) (short : nodes.length < limit) :
    freeBlocksFrom m limit start = some nodes := by
  induction nodes generalizing limit before start with
  | nil =>
    obtain ⟨limit, rfl⟩ := Nat.exists_eq_succ_of_ne_zero (ne_of_gt short)
    rw [freeBlocksFrom, if_pos segment.1]
  | cons node rest ih =>
    obtain ⟨rfl, nonzero, -, tail⟩ := segment
    obtain ⟨limit, rfl⟩ := Nat.exists_eq_succ_of_ne_zero (Nat.ne_zero_of_lt short)
    rw [freeBlocksFrom, if_neg nonzero, ih tail (Nat.lt_of_succ_lt_succ short), Option.map_some]

/-- The walk back from the last block goes over all of them. -/
theorem countBackward_segment {before after : Nat} (limit : Nat)
    (segment : Segment prev next m before start nodes last after) :
    countBackward m (limit + nodes.length) last =
      (countBackward m limit before).map (· + nodes.length) := by
  induction nodes generalizing limit before start with
  | nil =>
    rw [segment.2]
    simp
  | cons node rest ih =>
    obtain ⟨rfl, nonzero, back, tail⟩ := segment
    rw [List.length_cons, ← add_assoc, add_right_comm, ih (limit + 1) tail, countBackward,
      if_neg nonzero, back, Option.map_map]
    congr 1
    funext count
    simp only [Function.comp_apply]
    omega

/-- The linked blocks are where `next` leads from the first one, up to the end of the list. -/
theorem iterate_next_segment {before : Nat}
    (segment : Segment prev next m before start nodes last 0) :
    (next m)^[nodes.length] start = 0 ∧ ∀ i < nodes.length, (next m)^[i] start ≠ 0 := by
  induction nodes generalizing before start with
  | nil => exact ⟨segment.1, fun i absent => absurd absent (Nat.not_lt_zero i)⟩
  | cons node rest ih =>
    obtain ⟨rfl, nonzero, -, tail⟩ := segment
    obtain ⟨finish, alive⟩ := ih tail
    refine ⟨finish, fun i inside => ?_⟩
    cases i with
    | zero => exact nonzero
    | succ i => exact alive i (Nat.lt_of_succ_lt_succ inside)

/-- The blocks of a heap below `2 ^ 64` are fewer than the steps of a walk. -/
theorem FreeList.short (list : FreeList m first blocks) (below : ∀ b ∈ blocks, b.1 < 2 ^ 64) :
    (blocks.map Prod.fst).length < walkLimit := by
  have distinct : (0 :: blocks.map Prod.fst).Nodup :=
    List.nodup_cons.mpr ⟨fun zero => list.linked.ne_zero 0 zero rfl, list.distinct⟩
  have inside : 0 :: blocks.map Prod.fst ⊆ List.range walkLimit := by
    intro x mem
    rw [List.mem_range]
    rcases List.mem_cons.mp mem with rfl | later
    · exact Nat.two_pow_pos 64
    · obtain ⟨b, here, rfl⟩ := List.mem_map.mp later
      exact below b here
  have fewer := (distinct.subperm inside).length_le
  rwa [List.length_range] at fewer

variable {π : Type} {s : HeapAllocator π}

section
variable (list : FreeList s.memory s.freeListAddr blocks) (below : ∀ b ∈ blocks, b.1 < 2 ^ 64)
include list below

theorem FreeList.iterFreeBlocks : s.iterFreeBlocks = some (blocks.map Prod.fst) := by
  obtain ⟨last, segment⟩ := list.linked
  exact freeBlocksFrom_segment segment (list.short below)

theorem FreeList.isFreeBlocksInCycle : s.isFreeBlocksInCycle = some false := by
  obtain ⟨last, segment⟩ := list.linked
  obtain ⟨finish, alive⟩ := iterate_next_segment segment
  have short := list.short below
  unfold HeapAllocator.isFreeBlocksInCycle
  split
  · rfl
  · rename_i nonempty
    refine floyd_ends (k := 0) finish alive ?_ (by omega)
    refine Nat.pos_of_ne_zero fun none => nonempty ?_
    rwa [none] at finish

theorem FreeList.checkFreeBlocks : s.checkFreeBlocks = some false := by
  obtain ⟨last, segment⟩ := list.linked
  have short := list.short below
  have lastIs : (blocks.map Prod.fst).getLast?.getD 0 = last := segment.last_eq.symm
  obtain ⟨rest, total⟩ : ∃ rest, walkLimit = rest + 1 + (blocks.map Prod.fst).length :=
    ⟨walkLimit - 1 - (blocks.map Prod.fst).length, by omega⟩
  have backward := countBackward_segment (rest + 1) segment
  rw [← total, countBackward, if_pos rfl] at backward
  rw [HeapAllocator.checkFreeBlocks, list.iterFreeBlocks below]
  simp only [some_bind, lastIs, backward, Option.map_some, zero_add, bne_self_eq_false]

/-- The checks at the end of `alloc` and `dealloc` find nothing. -/
theorem FreeList.checked : s.checked = some s := by
  simp [HeapAllocator.checked, HeapAllocator.checkIssues, list.isFreeBlocksInCycle below,
    list.checkFreeBlocks below]

end

end

end Emerald.IncreasingHeapAllocator
