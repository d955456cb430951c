
import Emerald.MemoryManagement.MemoryLayout

/-!
# Physical pages

`kernel/src/memory_management/physical_page_allocator.rs`, over the physical memory it hands out.
The free list is the list of the pages that `low_mem_free_list_head` and the `next` pointers lead
to, by their kernel virtual addresses; the pointers themselves are stored in the free pages.
`none` is a panic.
-/

namespace Emerald.MemoryManagement

structure PhysicalPageAllocator where
  freeList : List Nat
  highMemStart : Nat
  start : Nat
  «end» : Nat
  freeCount : Nat
  usedCount : Nat
  deriving DecidableEq

/-- Physical memory by the physical address of a page and the number of a 64-bit word in it. -/
abbrev PhysicalMemory := Nat → Nat → BitVec 64

/-- `write_bytes` over a whole page. -/
def PhysicalMemory.fill (memory : PhysicalMemory) (page : Nat) (word : BitVec 64) :
    PhysicalMemory :=
  fun p i => if p = page then word else memory p i

def PhysicalMemory.write (memory : PhysicalMemory) (page index : Nat) (word : BitVec 64) :
    PhysicalMemory :=
  fun p i => if p = page ∧ i = index then word else memory p i

/-- The physical memory with its allocator. -/
structure Physical where
  memory : PhysicalMemory
  allocator : PhysicalPageAllocator

namespace PhysicalPageAllocator
variable {page : Nat} {p p' : Physical}

/-- `PhysicalPageAllocator::alloc`: the virtual address of the page. -/
def alloc (p : Physical) : Option (Nat × Physical) :=
  match p.allocator.freeList with
  | [] => none
  | page :: rest => some (page,
      { memory := p.memory.fill (virtual2physical page) 0x0101010101010101#64
        allocator := { p.allocator with
          freeList := rest, usedCount := p.allocator.usedCount + 1 } })

/-- `alloc_zeroed`. -/
def allocZeroed (p : Physical) : Option (Nat × Physical) := do
  let (page, p) ← alloc p
  some (page, { p with memory := p.memory.fill (virtual2physical page) 0#64 })

/-- `next` of a free page: null or the address of the next one. -/
def nextPointer : List Nat → BitVec 64
  | [] => 0#64
  | page :: _ => BitVec.ofNat 64 page

/-- `PhysicalPageAllocator::free`, which the global `free` panics without. -/
def free (page : Nat) (p : Physical) : Option Physical :=
  if page = 0 ∨ isAligned page page4K = false ∨ p.allocator.end ≤ page ∨ page < p.allocator.start
  then none
  else if p.allocator.highMemStart = 0 ∨ page < p.allocator.highMemStart then
    some
      { memory := (p.memory.fill (virtual2physical page) 0x0202020202020202#64).write
          (virtual2physical page) 0 (nextPointer p.allocator.freeList)
        allocator := { p.allocator with
          freeList := page :: p.allocator.freeList, freeCount := p.allocator.freeCount + 1 } }
  else none

/-- The pages `free` takes. -/
structure Freeable (a : PhysicalPageAllocator) (page : Nat) : Prop where
  aligned : isAligned page page4K = true
  above : a.start ≤ page
  below : page < a.end
  low : a.highMemStart = 0 ∨ page < a.highMemStart

instance (a : PhysicalPageAllocator) (page : Nat) : Decidable (Freeable a page) :=
  decidable_of_iff (isAligned page page4K = true ∧ a.start ≤ page ∧ page < a.end ∧
      (a.highMemStart = 0 ∨ page < a.highMemStart))
    ⟨fun ⟨aligned, above, below, low⟩ => ⟨aligned, above, below, low⟩,
      fun ⟨aligned, above, below, low⟩ => ⟨aligned, above, below, low⟩⟩

/-- The free pages are distinct, each of them was given to `free`, and all that `free` takes lies in
the kernel's mapping of physical memory. -/
structure Wf (a : PhysicalPageAllocator) : Prop where
  distinct : a.freeList.Nodup
  pages : ∀ page ∈ a.freeList, Freeable a page
  lower : kernelBase ≤ a.start
  upper : a.end ≤ kernelEnd

/-- Pages go to and from the free list; the limits stay. -/
structure SameLimits (a b : PhysicalPageAllocator) : Prop where
  start : b.start = a.start
  «end» : b.end = a.end
  highMemStart : b.highMemStart = a.highMemStart

theorem Freeable.congr {a b : PhysicalPageAllocator} (freeable : Freeable a page)
    (same : SameLimits a b) : Freeable b page := by
  obtain ⟨aligned, above, below, low⟩ := freeable
  refine ⟨aligned, ?_, ?_, ?_⟩
  · rw [same.start]
    exact above
  · rw [same.end]
    exact below
  · rw [same.highMemStart]
    exact low

theorem allocZeroed_spec (done : allocZeroed p = some (page, p')) :
    p.allocator.freeList = page :: p'.allocator.freeList ∧
      p'.memory = p.memory.fill (virtual2physical page) 0#64 ∧
      SameLimits p.allocator p'.allocator := by
  simp only [allocZeroed, alloc, bind_eq_some] at done
  obtain ⟨taken, split, rest⟩ := done
  cases pages : p.allocator.freeList with
  | nil => simp [pages] at split
  | cons first others =>
    simp only [pages, Option.some.injEq] at split
    subst split
    obtain ⟨rfl, rfl⟩ := rest
    refine ⟨rfl, ?_, ⟨rfl, rfl, rfl⟩⟩
    funext a i
    simp only [PhysicalMemory.fill]
    split <;> rfl

theorem free_spec (done : free page p = some p') :
    Freeable p.allocator page ∧ p'.allocator.freeList = page :: p.allocator.freeList ∧
      SameLimits p.allocator p'.allocator ∧
      ∀ a i, a ≠ virtual2physical page → p'.memory a i = p.memory a i := by
  obtain ⟨valid, done⟩ := Option.ite_none_left_eq_some.mp done
  simp only [not_or, Bool.not_eq_false, not_le, not_lt] at valid
  obtain ⟨low, done⟩ := Option.ite_none_right_eq_some.mp done
  obtain rfl := Option.some.inj done
  refine ⟨⟨valid.2.1, valid.2.2.2, valid.2.2.1, low⟩, rfl, ⟨rfl, rfl, rfl⟩, ?_⟩
  intro a i other
  simp [PhysicalMemory.fill, PhysicalMemory.write, other]

theorem free_of_freeable (wf : Wf p.allocator) (freeable : Freeable p.allocator page) :
    ∃ p', free page p = some p' := by
  obtain ⟨aligned, above, below, low⟩ := freeable
  have nonzero : page ≠ 0 := by
    have := le_trans wf.lower above
    simp only [kernelBase] at this
    omega
  unfold free
  rw [if_neg, if_pos low]
  · exact ⟨_, rfl⟩
  · simp only [not_or, Bool.not_eq_false, not_le, not_lt]
    exact ⟨nonzero, aligned, below, above⟩

theorem Wf.alloc (wf : Wf p.allocator) (done : allocZeroed p = some (page, p')) :
    Wf p'.allocator ∧ page ∉ p'.allocator.freeList ∧ Freeable p'.allocator page := by
  obtain ⟨split, -, same⟩ := allocZeroed_spec done
  have distinct := wf.distinct
  have pages := wf.pages
  rw [split] at distinct pages
  obtain ⟨absent, distinct⟩ := List.nodup_cons.mp distinct
  refine ⟨⟨distinct, ?_, ?_, ?_⟩, absent, (pages page (by simp)).congr same⟩
  · exact fun other mem => (pages other (by simp [mem])).congr same
  · rw [same.start]
    exact wf.lower
  · rw [same.end]
    exact wf.upper

theorem Wf.free (wf : Wf p.allocator) (used : page ∉ p.allocator.freeList)
    (done : free page p = some p') : Wf p'.allocator := by
  obtain ⟨freeable, split, same, -⟩ := free_spec done
  refine ⟨?_, ?_, ?_, ?_⟩
  · rw [split]
    exact List.nodup_cons.mpr ⟨used, wf.distinct⟩
  · intro other mem
    rw [split] at mem
    rcases List.mem_cons.mp mem with rfl | older
    · exact freeable.congr same
    · exact (wf.pages other older).congr same
  · rw [same.start]
    exact wf.lower
  · rw [same.end]
    exact wf.upper

end PhysicalPageAllocator

end Emerald.MemoryManagement
