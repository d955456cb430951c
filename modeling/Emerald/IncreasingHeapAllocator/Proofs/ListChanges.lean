
import Emerald.IncreasingHeapAllocator.Proofs.FreeList

/-!
# Changes of the free list

The pieces of `alloc` and `free_block` that take a block out of the list or put one into it. Three
of them are two others one after the other: the block in whose place another one comes, or which
becomes a part of the one before it, is taken out first.
-/

namespace Emerald.IncreasingHeapAllocator

open HeapFreeBlock

variable {first : Nat}

/-! ## What the pieces write -/

/-- The memory differs only in some headers. -/
def ChangesOnly (headers : Nat → Prop) (m m' : HeapMemory) : Prop :=
  ∀ a, (∀ h, headers h → a < h ∨ h + heapFreeBlockSize ≤ a) → m' a = m a

section
variable {headers headers' : Nat → Prop} {m m' m'' : HeapMemory} {h v : Nat}

theorem ChangesOnly.refl : ChangesOnly headers m m := fun _ _ => rfl

theorem ChangesOnly.trans (one : ChangesOnly headers m m') (two : ChangesOnly headers m' m'') :
    ChangesOnly headers m m'' := fun a outside => (two a outside).trans (one a outside)

theorem ChangesOnly.mono (only : ChangesOnly headers m m') (more : ∀ h, headers h → headers' h) :
    ChangesOnly headers' m m' := fun a outside => only a fun h header => outside h (more h header)

theorem changesOnly_setPrev (header : headers h) : ChangesOnly headers m (setPrev m h v) := by
  intro a outside
  have := outside h header
  exact if_neg (by simp only [heapFreeBlockSize] at this; omega)

theorem changesOnly_setNext (header : headers h) : ChangesOnly headers m (setNext m h v) := by
  intro a outside
  have := outside h header
  exact if_neg (by simp only [heapFreeBlockSize] at this; omega)

theorem changesOnly_setSize (header : headers h) : ChangesOnly headers m (setSize m h v) := by
  intro a outside
  have := outside h header
  exact if_neg (by simp only [heapFreeBlockSize] at this; omega)

theorem changesOnly_setPrevOf (header : h ≠ 0 → headers h) :
    ChangesOnly headers m (setPrevOf m h v) := by
  unfold setPrevOf
  split
  · rename_i some
    exact changesOnly_setPrev (header some)
  · exact .refl

variable {π : Type} {s : HeapAllocator π}

theorem changesOnly_linkFrom (header : h ≠ 0 → headers h) :
    ChangesOnly headers s.memory (s.linkFrom h v).memory := by
  unfold HeapAllocator.linkFrom
  split
  · rename_i some
    exact changesOnly_setNext (header some)
  · exact .refl

theorem freeListAddr_linkFrom :
    (s.linkFrom h v).freeListAddr = if h = 0 then v else s.freeListAddr := by
  unfold HeapAllocator.linkFrom
  split <;> simp [*]

end

theorem setPrevOf_setNext {m : HeapMemory} {a b v w : Nat} (clear : a ≠ 0 → Clear a b) :
    setPrevOf (setNext m b v) a w = setNext (setPrevOf m a w) b v := by
  unfold setPrevOf
  split
  · rename_i some
    have ne : a ≠ b + 8 := by
      have := clear some
      simp only [Clear, heapFreeBlockSize] at this
      omega
    funext address
    simp only [setPrev, setNext, HeapMemory.write]
    split <;> split <;> omega
  · rfl

/-- A header written as a whole. -/
def fill (m : HeapMemory) (node before after bytes : Nat) : HeapMemory :=
  setSize (setNext (setPrev m node before) node after) node bytes

section
variable {π : Type} {s : HeapAllocator π} {headers : Nat → Prop}
  (clear : ∀ a b, headers a → headers b → Clear a b)
  {node block before after bytes allocationSize : Nat} (freed : Nat)

include clear

theorem insertFree_eq
    (afterIs : after = if before = 0 then s.freeListAddr else next s.memory before)
    (afterHeader : after ≠ 0 → headers after) (beforeHeader : before ≠ 0 → headers before) :
    s.insertFree node before freed =
      { s with memory := setPrevOf (fill s.memory node before after freed) after node }.linkFrom
        before node := by
  by_cases first : before = 0
  · have here : next (fill s.memory node before after freed) node = after := by
      rw [fill, next_setSize (.inl rfl), next_setNext, if_pos rfl]
    rw [if_pos first] at afterIs
    rw [fill, first, afterIs] at here ⊢
    simp only [HeapAllocator.insertFree, HeapAllocator.linkFrom, here, if_true, ne_eq,
      not_true, if_false]
  · have clearBefore := fun some => clear after before (afterHeader some) (beforeHeader first)
    rw [if_neg first] at afterIs
    simp only [HeapAllocator.insertFree, HeapAllocator.linkFrom, ne_eq, first,
      not_false_eq_true, if_true, if_false, ← afterIs, setPrevOf_setNext clearBefore, fill]

section
variable (blockHeader : headers block)
  (beforeHeader : prev s.memory block ≠ 0 → headers (prev s.memory block))
  (backward : block ≠ prev s.memory block)
include blockHeader beforeHeader backward

theorem unlinkBlock_eq : s.unlinkBlock block =
    { s.linkFrom (prev s.memory block) (next s.memory block) with
      memory := setPrevOf (s.linkFrom (prev s.memory block) (next s.memory block)).memory
        (next s.memory block) (prev s.memory block) } := by
  simp only [HeapAllocator.unlinkBlock, next_linkFrom,
    prev_linkFrom (fun some => clear _ block (beforeHeader some) blockHeader)]
  rw [if_neg (fun same => backward same.2)]

variable (afterHeader : next s.memory block ≠ 0 → headers (next s.memory block))
include afterHeader

/-- A block in the place of another one. -/
theorem insertFree_unlinkBlock :
    (s.unlinkBlock block).insertFree node (prev s.memory block) bytes = { s with
      memory := setPrevOf (fill s.memory node (prev s.memory block) (next s.memory block) bytes)
        (next s.memory block) node }.linkFrom (prev s.memory block) node := by
  have clearAfter := fun x (header : headers x) some => clear _ x (afterHeader some) header
  rw [unlinkBlock_eq clear blockHeader beforeHeader backward,
    insertFree_eq clear bytes ?_ afterHeader beforeHeader]
  · generalize prev s.memory block = before at *
    generalize next s.memory block = after at *
    unfold HeapAllocator.linkFrom setPrevOf fill
    by_cases first : before = 0 <;> by_cases last : after = 0 <;> simp [first, last] <;>
    funext address <;> simp only [setPrev, setNext, setSize, HeapMemory.write] <;> grind
  · by_cases first : prev s.memory block = 0
    · rw [if_pos first, HeapAllocator.linkFrom, if_neg (fun some => some first)]
    · rw [if_neg first]
      show _ = next (setPrevOf _ _ _) _
      rw [next_setPrevOf (clearAfter _ (beforeHeader first)), next_linkFrom, if_pos ⟨first, rfl⟩]

/-- `mergeNext` puts the freed block into the place of the block after it. -/
theorem mergeNext_eq (nodeHeader : headers node) (other : block ≠ node)
    (forward : block ≠ next s.memory block) : s.mergeNext node block freed =
      (s.unlinkBlock block).insertFree node (prev s.memory block)
        (size s.memory block + freed) := by
  have clearBlock := clear node block nodeHeader blockHeader
  have order : ∀ before after bytes, setNext (setPrev (setSize s.memory node bytes) node before)
      node after = fill s.memory node before after bytes := by
    intro before after bytes
    funext address
    simp only [fill, setPrev, setNext, setSize, HeapMemory.write]
    grind
  rw [insertFree_unlinkBlock clear blockHeader beforeHeader backward afterHeader]
  simp only [HeapAllocator.mergeNext, prev_setSize clearBlock, next_setPrev clearBlock,
    next_setSize clearBlock, next_setNext, if_neg other, prev_setPrevOf, prev_setNext clearBlock,
    prev_setPrev]
  rw [if_neg (fun here => forward here.2), order]

/-- `splitBlock` puts the end of the block into its place. -/
theorem splitBlock_eq (nodeHeader : headers (block + allocationSize))
    (new : block + allocationSize ≠ next s.memory block) : s.splitBlock block allocationSize =
      (s.unlinkBlock block).insertFree (block + allocationSize) (prev s.memory block)
        (size s.memory block - allocationSize) := by
  have clearBlock := clear _ block nodeHeader blockHeader
  have clearNode := clear _ _ nodeHeader nodeHeader
  rw [insertFree_unlinkBlock clear blockHeader beforeHeader backward afterHeader]
  simp only [HeapAllocator.splitBlock, next_setPrev clearBlock, next_setSize clearNode,
    next_setNext, prev_setSize clearNode, prev_setNext clearNode, prev_setPrev, if_true,
    prev_setPrevOf, fill]
  rw [if_neg (fun same => new same.2)]

/-- `mergeBoth` takes out the block after the freed one, and the block before it grows. -/
theorem mergeBoth_eq (nonzero : prev s.memory block ≠ 0) :
    s.mergeBoth (prev s.memory block) block freed =
      (s.unlinkBlock block).mergePrev (prev s.memory block) (freed + size s.memory block) := by
  have clearBlock := clear _ block (beforeHeader nonzero) blockHeader
  have clearNode := clear _ _ (beforeHeader nonzero) (beforeHeader nonzero)
  have clearAfter := fun x (header : headers x) some => clear _ x (afterHeader some) header
  have apart := clearAfter _ (beforeHeader nonzero)
  rw [unlinkBlock_eq clear blockHeader beforeHeader backward]
  simp only [HeapAllocator.mergeBoth, HeapAllocator.mergePrev, HeapAllocator.linkFrom,
    next_setSize clearBlock, prev_setPrevOf, prev_setSize clearBlock, ite_self, if_pos nonzero,
    next_setNext, if_neg backward, next_setPrevOf (clearAfter block blockHeader),
    size_setPrevOf apart, size_setNext clearNode]
  unfold setPrevOf
  congr 1
  funext address
  simp only [Clear, heapFreeBlockSize] at apart
  split <;> simp only [setPrev, setNext, setSize, HeapMemory.write] <;> grind

end

end

/-! ## The list after a change -/

/-- The headers that a change of the list may write: that of a new block and those of the list. -/
def Headers (node : Nat) (blocks : List (Nat × Nat)) (h : Nat) : Prop :=
  h = node ∨ h ∈ blocks.map Prod.fst

/-- Some blocks replaced by others between the same neighbours. -/
theorem FreeList.replace {m m' : HeapMemory} {first' : Nat} {xs mid new ys : List (Nat × Nat)}
    (list : FreeList m first (xs ++ mid ++ ys))
    (linked : Linked prev next m' first' ((xs ++ new ++ ys).map Prod.fst))
    (sizes : ∀ b, b ∈ xs ∨ b ∈ ys → size m' b.1 = size m b.1)
    (newSizes : ∀ b ∈ new, size m' b.1 = b.2)
    (apart : (xs ++ new ++ ys).Pairwise fun a b => a.1 + a.2 < b.1)
    (shape : ∀ b ∈ new, 16 ∣ b.1 ∧ 16 ∣ b.2 ∧ heapFreeBlockSize < b.2) :
    FreeList m' first' (xs ++ new ++ ys) := by
  refine ⟨linked, ?_, apart, ?_⟩
  · intro b mem
    simp only [List.mem_append] at mem
    rcases mem with (front | here) | back
    · rw [sizes b (.inl front), list.sizes b (by simp [front])]
    · exact newSizes b here
    · rw [sizes b (.inr back), list.sizes b (by simp [back])]
  · intro b mem
    simp only [List.mem_append] at mem
    rcases mem with (front | here) | back
    · exact list.shape b (by simp [front])
    · exact shape b here
    · exact list.shape b (by simp [back])

section
variable {xs mid ys : List (Nat × Nat)} {node bytes : Nat}

theorem FreeList.apart_between {m : HeapMemory} (list : FreeList m first (xs ++ mid ++ ys))
    (left : ∀ b ∈ xs, b.1 + b.2 < node) (right : ∀ b ∈ ys, node + bytes < b.1) :
    (xs ++ [(node, bytes)] ++ ys).Pairwise fun a b => a.1 + a.2 < b.1 := by
  have apart := list.apart
  simp only [List.pairwise_append, List.mem_append] at apart ⊢
  obtain ⟨⟨front, -, -⟩, back, across⟩ := apart
  refine ⟨⟨front, List.pairwise_singleton _ _, ?_⟩, back, ?_⟩
  · intro a mem b here
    rw [List.mem_singleton.mp here]
    exact left a mem
  · intro a mem b here
    rcases mem with mem | mem
    · exact across a (.inl mem) b here
    · rw [List.mem_singleton.mp mem]
      exact right b here

theorem firstOf_header (mid : List (Nat × Nat)) (some : firstOf (ys.map Prod.fst) ≠ 0) :
    Headers node (xs ++ mid ++ ys) (firstOf (ys.map Prod.fst)) := by
  have mem := firstOf_mem (ne_nil_of_firstOf some)
  refine .inr ?_
  simp only [List.map_append, List.mem_append]
  exact .inr mem

theorem lastOf_header (mid : List (Nat × Nat)) (some : lastOf (xs.map Prod.fst) ≠ 0) :
    Headers node (xs ++ mid ++ ys) (lastOf (xs.map Prod.fst)) := by
  have nonempty : xs.map Prod.fst ≠ [] := fun empty => some (by rw [empty]; rfl)
  have mem := lastOf_mem nonempty
  refine .inr ?_
  simp only [List.map_append, List.mem_append]
  exact .inl (.inl mem)

end

/-- A change of the list to some blocks, which writes only into headers and the address of the
first block. -/
structure Changes {π : Type} (node : Nat) (blocks blocks' : List (Nat × Nat))
    (s t : HeapAllocator π) : Prop where
  list : FreeList t.memory t.freeListAddr blocks'
  only : ChangesOnly (Headers node blocks) s.memory t.memory
  rest : t = { s with memory := t.memory, freeListAddr := t.freeListAddr }

section
variable {π : Type} {s : HeapAllocator π} {xs ys : List (Nat × Nat)}
  {start freed bytes block allocationSize : Nat}
variable {m : HeapMemory} {node : Nat}

theorem FreeList.headers_clear {blocks : List (Nat × Nat)}
    (list : FreeList m first blocks) (clear : ∀ b ∈ blocks, Clear node b.1) :
    ∀ a b, Headers node blocks a → Headers node blocks b → Clear a b := by
  intro a b headerA headerB
  rcases headerA with rfl | memberA
  · rcases headerB with rfl | memberB
    · exact .inl rfl
    · obtain ⟨c, mem, rfl⟩ := List.mem_map.mp memberB
      exact clear c mem
  · obtain ⟨c, mem, rfl⟩ := List.mem_map.mp memberA
    rcases headerB with rfl | memberB
    · exact (clear c mem).symm
    · obtain ⟨d, mem', rfl⟩ := List.mem_map.mp memberB
      exact list.clear mem mem'

section
variable (list : FreeList m first (xs ++ [(block, bytes)] ++ ys))
include list

theorem FreeList.neighbours :
    prev m block = lastOf (xs.map Prod.fst) ∧ next m block = firstOf (ys.map Prod.fst) := by
  have linked := list.linked
  rw [List.map_append, List.map_append] at linked
  exact linked.neighbours

/-- The blocks before and after one of a list. -/
theorem FreeList.order : (∀ b ∈ xs, b.1 + b.2 < block) ∧ ∀ b ∈ ys, block + bytes < b.1 := by
  have apart := list.apart
  simp only [List.pairwise_append, List.mem_append] at apart
  exact ⟨fun b mem => apart.1.2.2 b mem _ (List.mem_singleton.mpr rfl),
    fun b mem => apart.2.2 _ (.inr (List.mem_singleton.mpr rfl)) b mem⟩

theorem FreeList.firstOf_ne {a : Nat} (nonzero : a ≠ 0) (before : a ≤ block + bytes) :
    a ≠ firstOf (ys.map Prod.fst) := by
  rintro rfl
  obtain ⟨b, mem, here⟩ := List.mem_map.mp (firstOf_mem (ne_nil_of_firstOf nonzero))
  have := list.order.2 b mem
  omega

theorem FreeList.ne_lastOf : block ≠ lastOf (xs.map Prod.fst) := by
  rintro rfl
  have nonzero := list.linked.ne_zero (lastOf (xs.map Prod.fst)) (by simp)
  have nonempty : xs.map Prod.fst ≠ [] := fun empty => nonzero (by rw [empty]; rfl)
  obtain ⟨b, mem, here⟩ := List.mem_map.mp (lastOf_mem nonempty)
  have := list.order.1 b mem
  omega

end

/-- The header of a block that goes between two parts of a list overlaps none of the list. -/
theorem FreeList.clear_between {mid : List (Nat × Nat)}
    (list : FreeList m first (xs ++ mid ++ ys)) (left : ∀ b ∈ xs, b.1 + b.2 ≤ node)
    (middle : ∀ b ∈ mid, Clear node b.1) (right : ∀ b ∈ ys, node + heapFreeBlockSize ≤ b.1) :
    ∀ a b, Headers node (xs ++ mid ++ ys) a → Headers node (xs ++ mid ++ ys) b → Clear a b := by
  refine list.headers_clear ?_
  intro b here
  simp only [List.mem_append] at here
  rcases here with (front | here) | back
  · have := left b front
    have := (list.shape b (by simp [front])).2.2
    exact .inr (.inr (by omega))
  · exact middle b here
  · exact .inr (.inl (right b back))

/-- The freed block becomes a block of its own. -/
theorem FreeList.insertFree (list : FreeList s.memory s.freeListAddr (xs ++ ys))
    (nonzero : start ≠ 0) (left : ∀ b ∈ xs, b.1 + b.2 < start)
    (right : ∀ b ∈ ys, start + freed < b.1)
    (shape : 16 ∣ start ∧ 16 ∣ freed ∧ heapFreeBlockSize < freed) :
    Changes start (xs ++ ys) (xs ++ [(start, freed)] ++ ys) s
      (s.insertFree start (lastOf (xs.map Prod.fst)) freed) := by
  have follows := list.linked
  rw [List.map_append] at follows
  rw [show xs ++ ys = xs ++ [] ++ ys by rw [List.append_nil]] at list ⊢
  have clear := list.clear_between (fun b mem => le_of_lt (left b mem)) (by simp)
    (fun b mem => by
      have := right b mem
      omega)
  have clearAfter := fun x (header : Headers start _ x) some =>
    clear _ x (firstOf_header [] some) header
  have clearBefore := fun x (header : Headers start _ x) some =>
    clear _ x (lastOf_header [] some) header
  have clearNode := fun x (header : Headers start _ x) => clear start x (.inl rfl) header
  have header : ∀ x, x = start ∨ x ∈ xs.map Prod.fst ∨ x ∈ ys.map Prod.fst →
      Headers start (xs ++ [] ++ ys) x := by
    intro x mem
    simpa [Headers] using mem
  have new : ∀ x, x ∈ xs.map Prod.fst ∨ x ∈ ys.map Prod.fst → x ≠ start := by
    intro x mem
    rcases mem with front | back
    · obtain ⟨b, mem, rfl⟩ := List.mem_map.mp front
      have := left b mem
      omega
    · obtain ⟨b, mem, rfl⟩ := List.mem_map.mp back
      have := right b mem
      omega
  have linked := list.linked
  have distinct := list.distinct
  rw [List.map_append, List.map_append] at linked distinct
  rw [insertFree_eq clear freed follows.following (firstOf_header _) (lastOf_header _)]
  refine ⟨list.replace ?_ ?_ ?_ (list.apart_between left right) ?_, ?_, ?_⟩
  · rw [List.map_append, List.map_append, freeListAddr_linkFrom]
    refine linked.put distinct nonzero new (fun x here => ?_) (fun x here => ?_)
    · rw [prev_linkFrom (clearBefore x (header x here)), prev_setPrevOf, fill,
        prev_setSize (clearNode x (header x here)), prev_setNext (clearNode x (header x here)),
        prev_setPrev]
    · rw [next_linkFrom, next_setPrevOf (clearAfter x (header x here)), fill,
        next_setSize (clearNode x (header x here)), next_setNext,
        next_setPrev (clearNode x (header x here))]
  · intro b mem
    have place : b.1 ∈ xs.map Prod.fst ∨ b.1 ∈ ys.map Prod.fst :=
      mem.imp List.mem_map_of_mem List.mem_map_of_mem
    have inList := header b.1 (.inr place)
    rw [size_linkFrom (clearBefore _ inList), size_setPrevOf (clearAfter _ inList), fill,
      size_setSize, if_neg (new b.1 place), size_setNext (clearNode _ inList),
      size_setPrev (clearNode _ inList)]
  · intro b mem
    rw [List.mem_singleton.mp mem, size_linkFrom (clearBefore _ (.inl rfl)),
      size_setPrevOf (clearAfter _ (.inl rfl)), fill, size_setSize, if_pos rfl]
  · intro b mem
    rw [List.mem_singleton.mp mem]
    exact shape
  · exact (changesOnly_setPrev (.inl rfl)).trans ((changesOnly_setNext (.inl rfl)).trans
      ((changesOnly_setSize (.inl rfl)).trans ((changesOnly_setPrevOf (firstOf_header _)).trans
        (changesOnly_linkFrom (lastOf_header _)))))
  · unfold HeapAllocator.linkFrom
    split <;> rfl

section
variable (list : FreeList s.memory s.freeListAddr (xs ++ [(block, bytes)] ++ ys))
include list

/-- The free block before the freed one grows. -/
theorem FreeList.mergePrev
    (right : ∀ b ∈ ys, block + (bytes + freed) < b.1) (aligned : 16 ∣ freed) :
    Changes start (xs ++ [(block, bytes)] ++ ys) (xs ++ [(block, bytes + freed)] ++ ys) s
      (s.mergePrev block freed) := by
  have mem : (block, bytes) ∈ xs ++ [(block, bytes)] ++ ys := by simp
  have sizeIs : size s.memory block = bytes := list.sizes _ mem
  have shape : 16 ∣ block ∧ 16 ∣ bytes ∧ heapFreeBlockSize < bytes := list.shape _ mem
  have clear : ∀ x ∈ (xs ++ [(block, bytes)] ++ ys).map Prod.fst, Clear block x := by
    intro x here
    obtain ⟨b, inList, rfl⟩ := List.mem_map.mp here
    exact list.clear mem inList
  simp only [HeapAllocator.mergePrev, sizeIs]
  refine ⟨list.replace ?_ ?_ ?_ ?_ ?_, changesOnly_setSize (.inr (List.mem_map_of_mem mem)), rfl⟩
  · have same : (xs ++ [(block, bytes + freed)] ++ ys).map Prod.fst =
        (xs ++ [(block, bytes)] ++ ys).map Prod.fst := by simp
    rw [same]
    exact list.linked.congr (fun x here => prev_setSize (clear x here))
      (fun x here => next_setSize (clear x here))
  · intro b here
    have ne : b.1 ≠ block := by
      rcases here with front | back
      · have := list.order.1 b front
        omega
      · have := list.order.2 b back
        omega
    rw [size_setSize, if_neg ne]
  · intro b here
    rw [List.mem_singleton.mp here, size_setSize, if_pos rfl]
  · exact list.apart_between list.order.1 right
  · intro b here
    rw [List.mem_singleton.mp here]
    exact ⟨shape.1, dvd_add shape.2.1 aligned, lt_of_lt_of_le shape.2.2 (by simp)⟩

/-- A block taken out of the list. -/
theorem FreeList.unlinkBlock :
    Changes block (xs ++ [(block, bytes)] ++ ys) (xs ++ ys) s (s.unlinkBlock block) := by
  obtain ⟨back, forward⟩ := list.neighbours
  have mem : (block, bytes) ∈ xs ++ [(block, bytes)] ++ ys := by simp
  have clear := list.headers_clear (fun b here => list.clear mem here)
  have clearAfter := fun x (header : Headers block _ x) some =>
    clear _ x (firstOf_header [(block, bytes)] some) header
  have clearBefore := fun x (header : Headers block _ x) some =>
    clear _ x (lastOf_header [(block, bytes)] some) header
  have header : ∀ x, x ∈ xs.map Prod.fst ∨ x ∈ ys.map Prod.fst →
      Headers block (xs ++ [(block, bytes)] ++ ys) x := by
    intro x mem
    simp only [Headers, List.map_append, List.mem_append]
    exact .inr (mem.imp_left .inl)
  have linked := list.linked
  have distinct := list.distinct
  rw [List.map_append, List.map_append] at linked distinct
  rw [unlinkBlock_eq clear (.inl rfl) (by rw [back]; exact lastOf_header _)
    (by rw [back]; exact list.ne_lastOf), back, forward]
  refine ⟨?_, (changesOnly_linkFrom (lastOf_header _)).trans
    (changesOnly_setPrevOf (firstOf_header _)), ?_⟩
  · rw [show xs ++ ys = xs ++ [] ++ ys by rw [List.append_nil]]
    refine list.replace ?_ ?_ (by simp) ?_ (by simp)
    · rw [List.map_append, List.map_append]
      show Linked _ _ _ (HeapAllocator.freeListAddr _) _
      rw [freeListAddr_linkFrom]
      refine linked.splice distinct ⟨rfl, rfl⟩ (fun x here => ?_) (fun x here => ?_)
      · rw [prev_setPrevOf, prev_linkFrom (clearBefore x (header x here))]
      · rw [next_setPrevOf (clearAfter x (header x here)), next_linkFrom]
    · intro b here
      have start := header b.1 (here.imp List.mem_map_of_mem List.mem_map_of_mem)
      rw [size_setPrevOf (clearAfter _ start), size_linkFrom (clearBefore _ start)]
    · exact list.apart.sublist
        (((List.Sublist.refl xs).append (List.nil_sublist _)).append (List.Sublist.refl ys))
  · unfold HeapAllocator.linkFrom
    split <;> rfl

end

section
variable (list : FreeList s.memory s.freeListAddr (xs ++ [(block, bytes)] ++ ys))
include list

/-- A change after a block has been taken out. -/
theorem FreeList.andThen {t : HeapAllocator π} {node : Nat} {blocks : List (Nat × Nat)}
    (change : Changes node (xs ++ ys) blocks (s.unlinkBlock block) t) :
    Changes node (xs ++ [(block, bytes)] ++ ys) blocks s t := by
  refine ⟨change.list, (list.unlinkBlock.only.mono ?_).trans (change.only.mono ?_), ?_⟩
  · rintro h (rfl | here)
    · exact .inr (by simp)
    · exact .inr here
  · rintro h (rfl | here)
    · exact .inl rfl
    · simp only [Headers, List.map_append, List.mem_append] at here ⊢
      exact .inr (here.imp_left .inl)
  · rw [change.rest, list.unlinkBlock.rest]

/-- Another block in the place of one of the list. -/
theorem FreeList.replaceBlock {node size : Nat} (nonzero : node ≠ 0)
    (left : ∀ b ∈ xs, b.1 + b.2 < node) (right : ∀ b ∈ ys, node + size < b.1)
    (shape : 16 ∣ node ∧ 16 ∣ size ∧ heapFreeBlockSize < size) :
    Changes node (xs ++ [(block, bytes)] ++ ys) (xs ++ [(node, size)] ++ ys) s
      ((s.unlinkBlock block).insertFree node (prev s.memory block) size) := by
  have inserted := list.unlinkBlock.list.insertFree nonzero left right shape
  rw [← list.neighbours.1] at inserted
  exact list.andThen inserted

/-- The end of a block takes its place. -/
theorem FreeList.splitBlock (aligned : 16 ∣ allocationSize)
    (info : kernelHeapBlockInfoSize ≤ allocationSize)
    (room : allocationSize + heapFreeBlockSize < bytes) :
    Changes (block + allocationSize) (xs ++ [(block, bytes)] ++ ys)
      (xs ++ [(block + allocationSize, bytes - allocationSize)] ++ ys) s
      (s.splitBlock block allocationSize) := by
  obtain ⟨back, forward⟩ := list.neighbours
  obtain ⟨left, right⟩ := list.order
  have mem : (block, bytes) ∈ xs ++ [(block, bytes)] ++ ys := by simp
  have shape : 16 ∣ block ∧ 16 ∣ bytes ∧ heapFreeBlockSize < bytes := list.shape _ mem
  have left' : ∀ b ∈ xs, b.1 + b.2 < block + allocationSize := by
    intro b mem
    have := left b mem
    omega
  have right' : ∀ b ∈ ys, block + allocationSize + (bytes - allocationSize) < b.1 := by
    intro b mem
    have := right b mem
    omega
  have clear := list.clear_between (fun b mem => le_of_lt (left' b mem))
    (fun b here => by
      rw [List.mem_singleton.mp here]
      simp only [Clear, heapFreeBlockSize, kernelHeapBlockInfoSize] at info ⊢
      omega)
    (fun b mem => by
      have := right' b mem
      omega)
  have nonzero : block + allocationSize ≠ 0 := by
    simp only [kernelHeapBlockInfoSize] at info
    omega
  rw [splitBlock_eq clear (.inr (List.mem_map_of_mem mem))
    (by rw [back]; exact lastOf_header _) (by rw [back]; exact list.ne_lastOf)
    (by rw [forward]; exact firstOf_header _) (.inl rfl)
    (by rw [forward]; exact list.firstOf_ne nonzero (by omega)), list.sizes _ mem]
  exact list.replaceBlock nonzero left' right'
    ⟨dvd_add shape.1 aligned, Nat.dvd_sub shape.2.1 aligned, by omega⟩

end

/-- The freed block and the free block after it become one. -/
theorem FreeList.mergeNext
    (list : FreeList s.memory s.freeListAddr (xs ++ [(start + freed, bytes)] ++ ys))
    (nonzero : start ≠ 0) (left : ∀ b ∈ xs, b.1 + b.2 < start)
    (shape : 16 ∣ start ∧ 16 ∣ freed ∧ heapFreeBlockSize < freed) :
    Changes start (xs ++ [(start + freed, bytes)] ++ ys) (xs ++ [(start, bytes + freed)] ++ ys) s
      (s.mergeNext start (start + freed) freed) := by
  obtain ⟨back, forward⟩ := list.neighbours
  obtain ⟨-, right⟩ := list.order
  have mem : (start + freed, bytes) ∈ xs ++ [(start + freed, bytes)] ++ ys := by simp
  have bytesShape : 16 ∣ start + freed ∧ 16 ∣ bytes ∧ heapFreeBlockSize < bytes :=
    list.shape _ mem
  have right' : ∀ b ∈ ys, start + (bytes + freed) < b.1 := by
    intro b mem
    have := right b mem
    omega
  have clear := list.clear_between (fun b mem => le_of_lt (left b mem))
    (fun b here => by
      rw [List.mem_singleton.mp here]
      exact .inr (.inl (by omega)))
    (fun b mem => by
      have := right' b mem
      omega)
  rw [mergeNext_eq clear freed (.inr (List.mem_map_of_mem mem))
    (by rw [back]; exact lastOf_header _) (by rw [back]; exact list.ne_lastOf)
    (by rw [forward]; exact firstOf_header _) (.inl rfl) (by omega)
    (by rw [forward]; exact list.firstOf_ne (by omega) (by omega)), list.sizes _ mem]
  exact list.replaceBlock nonzero left right' ⟨shape.1, dvd_add bytesShape.2.1 shape.2.1, by omega⟩

/-- The freed block and the free blocks on both sides become one. -/
theorem FreeList.mergeBoth {above : Nat} (list : FreeList s.memory s.freeListAddr
      (xs ++ [(block, bytes), (block + bytes + freed, above)] ++ ys))
    (aligned : 16 ∣ freed) :
    Changes start (xs ++ [(block, bytes), (block + bytes + freed, above)] ++ ys)
      (xs ++ [(block, bytes + (freed + above))] ++ ys) s
      (s.mergeBoth block (block + bytes + freed) freed) := by
  have regroup : xs ++ [(block, bytes), (block + bytes + freed, above)] ++ ys =
      xs ++ [(block, bytes)] ++ [(block + bytes + freed, above)] ++ ys := by simp
  rw [regroup] at list ⊢
  obtain ⟨back, forward⟩ := list.neighbours
  rw [List.map_append, show List.map Prod.fst [(block, bytes)] = [block] from rfl,
    lastOf_concat] at back
  have mem : (block, bytes) ∈
      xs ++ [(block, bytes)] ++ [(block + bytes + freed, above)] ++ ys := by simp
  have memberAbove : (block + bytes + freed, above) ∈
      xs ++ [(block, bytes)] ++ [(block + bytes + freed, above)] ++ ys := by simp
  have shape := list.shape _ mem
  have shapeAbove := list.shape _ memberAbove
  have clear := list.headers_clear (fun b here => list.clear mem here)
  have grown : Changes start _ (xs ++ [(block, bytes + (freed + above))] ++ ys) _ _ :=
    list.unlinkBlock.list.mergePrev (fun b here => by
      have := list.order.2 b here
      omega) (dvd_add aligned shapeAbove.2.1)
  have equal := mergeBoth_eq clear freed (.inr (List.mem_map_of_mem memberAbove))
    (by rw [back]; exact fun _ => .inl rfl) (by rw [back]; omega)
    (by rw [forward]; exact firstOf_header _)
    (by rw [back]; exact list.linked.ne_zero _ (List.mem_map_of_mem mem))
  rw [back, list.sizes _ memberAbove] at equal
  rw [equal]
  exact list.andThen grown

end

end Emerald.IncreasingHeapAllocator
