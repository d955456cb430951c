
import Emerald.IncreasingHeapAllocator.Allocator

/-!
# The cycle check

`is_free_blocks_in_cycle` follows `next` with two pointers, one twice as fast as the other. After
`k` rounds they are `k` and `2 * k + 1` steps from the head, whatever the pointers are.
-/

namespace Emerald.IncreasingHeapAllocator

open HeapFreeBlock

section
variable {α : Type} {f : α → α} {x : α} {i j : Nat}

/-- A walk that returns to a block repeats itself from there on. -/
theorem iterate_repeats (same : f^[i] x = f^[j] x) (k : Nat) : f^[k + i] x = f^[k + j] x := by
  rw [Function.iterate_add_apply, Function.iterate_add_apply, same]

/-- Before a walk comes to a value for the first time, it is nowhere twice. -/
theorem iterate_ne {last : Nat} {y : α} (finish : f^[last] x = y)
    (before : ∀ i < last, f^[i] x ≠ y) (less : i < j) (within : j ≤ last) :
    f^[i] x ≠ f^[j] x := by
  intro same
  have early := iterate_repeats same (last - j)
  rw [Nat.sub_add_cancel within, finish] at early
  exact before _ (by omega) early

end

variable {m : HeapMemory} {head : Nat}

/-- A round of the loop. -/
theorem floyd_round (k limit : Nat) :
    floyd m (limit + 1) ((next m)^[k] head) ((next m)^[2 * k + 1] head) =
      if (next m)^[2 * k + 1] head = (next m)^[k] head then some true
      else if (next m)^[2 * k + 1] head = 0 ∨ (next m)^[2 * k + 2] head = 0 ∨
          (next m)^[k] head = 0 then some false
      else floyd m limit ((next m)^[k + 1] head) ((next m)^[2 * (k + 1) + 1] head) := by
  rw [floyd, Function.iterate_succ_apply' _ k, Nat.mul_succ,
    Function.iterate_succ_apply' _ (2 * k + 2), Function.iterate_succ_apply' _ (2 * k + 1)]

/-- Where the list ends, the fast pointer gets there, and the slow one is not met on the way. -/
theorem floyd_ends {last : Nat} (finish : (next m)^[last] head = 0)
    (before : ∀ i < last, (next m)^[i] head ≠ 0) {k limit : Nat} (within : 2 * k + 1 ≤ last)
    (enough : last - (2 * k + 1) < limit) :
    floyd m limit ((next m)^[k] head) ((next m)^[2 * k + 1] head) = some false := by
  induction limit generalizing k with
  | zero => exact absurd enough (Nat.not_lt_zero _)
  | succ limit ih =>
    have apart := iterate_ne finish before (by omega : k < 2 * k + 1) within
    rw [floyd_round, if_neg apart.symm]
    split
    · rfl
    · rename_i alive
      have first : 2 * k + 1 ≠ last := fun reached => alive (.inl (reached ▸ finish))
      have second : 2 * k + 2 ≠ last := fun reached => alive (.inr (.inl (reached ▸ finish)))
      exact ih (by omega) (by omega)

/-- Where the list does not end, the check stops in the round in which the pointers meet. -/
theorem floyd_meets (alive : ∀ i, (next m)^[i] head ≠ 0) {k limit : Nat} {meet : Nat}
    (later : k ≤ meet) (met : (next m)^[meet] head = (next m)^[2 * meet + 1] head)
    (enough : meet - k < limit) :
    floyd m limit ((next m)^[k] head) ((next m)^[2 * k + 1] head) = some true := by
  induction limit generalizing k with
  | zero => exact absurd enough (Nat.not_lt_zero _)
  | succ limit ih =>
    rw [floyd_round]
    split
    · rfl
    · rename_i apart
      have before : k ≠ meet := fun same => apart (same ▸ met.symm)
      rw [if_neg (by simp only [alive, or_self, not_false_eq_true])]
      exact ih (by omega) (by omega)

/-- A walk over as many blocks as there are addresses is at one of them twice. -/
theorem exists_repeat (addresses : ∀ i, (next m)^[i] head < walkLimit)
    (alive : ∀ i < walkLimit, (next m)^[i] head ≠ 0) :
    ∃ i j, i < j ∧ j < walkLimit ∧ (next m)^[i] head = (next m)^[j] head := by
  have maps : ∀ i ∈ Finset.range walkLimit, (next m)^[i] head ∈ Finset.Ico 1 walkLimit := by
    intro i inside
    exact Finset.mem_Ico.mpr
      ⟨Nat.one_le_iff_ne_zero.mpr (alive i (Finset.mem_range.mp inside)), addresses i⟩
  have fewer : (Finset.Ico 1 walkLimit).card < (Finset.range walkLimit).card := by
    rw [Nat.card_Ico, Finset.card_range]
    exact Nat.sub_lt (Nat.two_pow_pos 64) Nat.one_pos
  obtain ⟨i, hi, j, hj, differ, same⟩ := Finset.exists_ne_map_eq_of_card_lt_of_maps_to fewer maps
  rw [Finset.mem_range] at hi hj
  rcases Nat.lt_or_gt_of_ne differ with less | less
  · exact ⟨i, j, less, hj, same⟩
  · exact ⟨j, i, less, hi, same.symm⟩

/-- On a cycle of length `j - i` that the walk enters after `i` steps, the pointers meet. -/
theorem exists_meet {i j : Nat} (less : i < j) (same : (next m)^[i] head = (next m)^[j] head) :
    ∃ meet < j, (next m)^[meet] head = (next m)^[2 * meet + 1] head := by
  -- the first dvd of the length of the cycle after `i`
  obtain ⟨laps, low, high⟩ : ∃ laps, i < (j - i) * laps ∧ (j - i) * laps ≤ j := by
    refine ⟨i / (j - i) + 1, Nat.lt_mul_div_succ i (by omega), ?_⟩
    have whole := Nat.mul_div_le i (j - i)
    rw [mul_add]
    omega
  refine ⟨(j - i) * laps - 1, by omega, ?_⟩
  have around : Function.IsPeriodicPt (next m) (j - i) ((next m)^[i] head) := by
    rw [Function.IsPeriodicPt, Function.IsFixedPt, ← Function.iterate_add_apply,
      Nat.sub_add_cancel less.le, same]
  have turn := congrArg (next m)^[(j - i) * laps - 1 - i] (around.mul_const laps).eq
  rw [← Function.iterate_add_apply, ← Function.iterate_add_apply,
    ← Function.iterate_add_apply] at turn
  convert turn.symm using 2 <;> omega

/-- `is_free_blocks_in_cycle` returns on every memory, and it returns true exactly if `next` never
leads from the head of the list to its end. -/
theorem isFreeBlocksInCycle_iff {π : Type} (s : HeapAllocator π)
    (words : ∀ a, s.memory a < 2 ^ 64) (address : s.freeListAddr < 2 ^ 64) :
    ∃ cycle, s.isFreeBlocksInCycle = some cycle ∧
      (cycle = true ↔ ∀ n, (next s.memory)^[n] s.freeListAddr ≠ 0) := by
  have addresses : ∀ i, (next s.memory)^[i] s.freeListAddr < walkLimit := by
    intro i
    cases i with
    | zero => exact address
    | succ i =>
      rw [Function.iterate_succ_apply']
      exact words _
  unfold HeapAllocator.isFreeBlocksInCycle
  by_cases ends : ∃ n, (next s.memory)^[n] s.freeListAddr = 0
  · refine ⟨false, ?_, by simpa using ends⟩
    split
    · rfl
    · rename_i nonempty
      classical
      have before : ∀ i < Nat.find ends, (next s.memory)^[i] s.freeListAddr ≠ 0 :=
        fun i => Nat.find_min ends
      have short : Nat.find ends < walkLimit := by
        by_contra long
        obtain ⟨i, j, less, below, same⟩ :=
          exists_repeat addresses fun i inside => before i (by omega)
        exact iterate_ne (Nat.find_spec ends) before less (by omega) same
      refine floyd_ends (k := 0) (Nat.find_spec ends) before ?_ (by omega)
      exact Nat.pos_of_ne_zero fun zero => nonempty ((Nat.find_eq_zero ends).mp zero)
  · have alive : ∀ i, (next s.memory)^[i] s.freeListAddr ≠ 0 := fun i zero => ends ⟨i, zero⟩
    obtain ⟨i, j, less, below, same⟩ := exists_repeat addresses fun i _ => alive i
    obtain ⟨meet, early, met⟩ := exists_meet less same
    refine ⟨true, ?_, by simpa using alive⟩
    rw [if_neg (show s.freeListAddr ≠ 0 from alive 0)]
    exact floyd_meets (k := 0) alive (Nat.zero_le _) met (by omega)

/-- A heap whose only block leads to itself. -/
def loopedHeap : HeapAllocator Unit where
  heapStart := 16
  totalHeapSize := 4096
  freeListAddr := 16
  freeSize := 4096
  usedSize := 0
  pageAllocator := ()
  memory := fun a => if a = 24 then 16 else 0

theorem isFreeBlocksInCycle_loopedHeap :
    (∀ a, loopedHeap.memory a < 2 ^ 64) ∧ loopedHeap.isFreeBlocksInCycle = some true := by
  have words : ∀ a, loopedHeap.memory a < 2 ^ 64 := by
    intro a
    simp only [loopedHeap]
    split <;> decide
  obtain ⟨cycle, returned, iff⟩ := isFreeBlocksInCycle_iff loopedHeap words (by decide)
  have stays : ∀ n, (next loopedHeap.memory)^[n] loopedHeap.freeListAddr = 16 :=
    fun n => Function.iterate_fixed (by decide) n
  refine ⟨words, ?_⟩
  rw [returned, iff.mpr fun n => by rw [stays n]; decide]

end Emerald.IncreasingHeapAllocator
