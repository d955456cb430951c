
import Emerald.MemoryManagement.PhysicalPageAllocator
import Emerald.Misc.Reachable
import Emerald.Misc.Tiling

/-!
# The free list in the free pages

`PhysicalPageAllocator` of `kernel/src/memory_management/physical_page_allocator.rs` down to its
pointers: `low_mem_free_list_head` leads to a free page, and the first word of a free page leads to
the next one. `alloc` and `free` overwrite the page they are about. Pages are named by the addresses
through which the kernel accesses them. `none` is a panic.
-/

namespace Emerald.MemoryManagement

/-- `Option<NonNull<FreePage>>` as it is stored. -/
def pointerWord : Option Nat → BitVec 64
  | none => 0#64
  | some page => BitVec.ofNat 64 page

/-- `Option<NonNull<FreePage>>` as it is read. -/
def pointerAt (word : BitVec 64) : Option Nat := if word = 0#64 then none else some word.toNat

/-- `PhysicalPageAllocator` with the memory it manages. -/
structure LinkedPages where
  memory : PhysicalMemory
  lowMemFreeListHead : Option Nat
  highMemStart : Nat
  start : Nat
  «end» : Nat
  freeCount : Nat
  usedCount : Nat

namespace LinkedPages

/-- `PhysicalPageAllocator::alloc`. -/
def alloc (a : LinkedPages) : Option (Nat × LinkedPages) := do
  let page ← a.lowMemFreeListHead
  some (page, { a with
    memory := a.memory.fill page 0x0101010101010101#64
    lowMemFreeListHead := pointerAt (a.memory page 0)
    usedCount := a.usedCount + 1 })

/-- `PhysicalPageAllocator::free`. -/
def free (page : Nat) (a : LinkedPages) : Option LinkedPages :=
  if page = 0 ∨ isAligned page page4K = false ∨ a.end ≤ page ∨ page < a.start then none
  else if a.highMemStart = 0 ∨ page < a.highMemStart then
    some { a with
      memory := (a.memory.fill page 0x0202020202020202#64).write page 0
        (pointerWord a.lowMemFreeListHead)
      lowMemFreeListHead := some page
      freeCount := a.freeCount + 1 }
  else none

/-- `stats`. -/
def stats (a : LinkedPages) : Nat × Nat := (a.freeCount, a.usedCount)

/-- The loop of `init_range`. -/
def freePages (page : Nat) : Nat → LinkedPages → Option LinkedPages
  | 0, a => some a
  | count + 1, a => do
    let a ← a.free page
    freePages (page + page4K) count a

end LinkedPages

/-- The pages that the loop of `init_range` frees. -/
def consecutivePages (page : Nat) : Nat → List Nat
  | 0 => []
  | count + 1 => page :: consecutivePages (page + page4K) count

/-- The arguments of `init_range`: two pointers. -/
structure PageRange where
  start : Nat
  «end» : Nat
  pointer : «end» < 2 ^ 64
  deriving DecidableEq

namespace PageRange

/-- The first whole page of a range. -/
def first (r : PageRange) : Nat := alignUp r.start page4K

/-- The number of whole pages of a range. -/
def count (r : PageRange) : Nat := (alignDown r.end page4K - r.first) / page4K

/-- The whole pages of a range. -/
def pages (r : PageRange) : List Nat := consecutivePages r.first r.count

/-- The number of bytes of a range. -/
def size (r : PageRange) : Nat := r.end - r.start

/-- The ranges have no address in common. -/
abbrev Apart : PageRange → PageRange → Prop := Emerald.Apart start size

end PageRange

namespace LinkedPages

/-- `init_range`. -/
def initRange (r : PageRange) (a : LinkedPages) : Option LinkedPages :=
  if r.first < alignDown r.end page4K then freePages r.first r.count a else none

/-- `new` sets the limits before it calls `init_range`. -/
def withLimits (a : LinkedPages) (start end_ highMemStart : Nat) : LinkedPages :=
  { a with start := start, «end» := end_, highMemStart := highMemStart }

/-- The allocators that `init_range` builds over the given ranges from one of the initial ones, the
last range first. -/
inductive BuiltFrom (initial : LinkedPages → Prop) : List PageRange → LinkedPages → Prop
  | start {a : LinkedPages} : initial a → BuiltFrom initial [] a
  | limits {ranges : List PageRange} {a : LinkedPages} (start end_ highMemStart : Nat) :
      BuiltFrom initial ranges a →
      BuiltFrom initial ranges (a.withLimits start end_ highMemStart)
  | range {ranges : List PageRange} {a b : LinkedPages} (r : PageRange) :
      BuiltFrom initial ranges a → initRange r a = some b → BuiltFrom initial (r :: ranges) b

/-- The allocators built from one without free pages. -/
abbrev Built : List PageRange → LinkedPages → Prop :=
  BuiltFrom fun a => a.lowMemFreeListHead = none

/-- The allocator that `new` starts from. -/
def blank (memory : PhysicalMemory) : LinkedPages := ⟨memory, none, 0, 0, 0, 0, 0⟩

/-- The allocators that `new` builds, from the blank one. -/
abbrev Initialised : List PageRange → LinkedPages → Prop :=
  BuiltFrom fun a => ∃ memory, a = blank memory

theorem Initialised.built {ranges : List PageRange} {a : LinkedPages}
    (initialised : Initialised ranges a) : Built ranges a := by
  induction initialised with
  | start blank =>
    obtain ⟨memory, rfl⟩ := blank
    exact .start rfl
  | limits start end_ highMemStart _ ih => exact .limits start end_ highMemStart ih
  | range r _ done ih => exact .range r ih done

end LinkedPages

/-- The allocator and the pages that are handed out. -/
structure PageUse where
  allocator : LinkedPages
  outstanding : List Nat

/-- The calls, and what the owners of pages do in between. -/
inductive PageCall
  | alloc
  | free (page : Nat)
  | write (page index : Nat) (word : BitVec 64)

namespace PageUse

def step (u : PageUse) : PageCall → Option PageUse
  | .alloc => u.allocator.alloc.map fun result => ⟨result.2, result.1 :: u.outstanding⟩
  | .free page => (u.allocator.free page).map fun a => ⟨a, u.outstanding.erase page⟩
  | .write page index word =>
    let memory := u.allocator.memory.write page index word
    some { u with allocator := { u.allocator with memory := memory } }

/-- Only pages that are handed out are freed or written. -/
def Owned (u : PageUse) : PageCall → Prop
  | .alloc => True
  | .free page => page ∈ u.outstanding
  | .write page _ _ => page ∈ u.outstanding

instance (u : PageUse) : DecidablePred u.Owned
  | .alloc => inferInstanceAs (Decidable True)
  | .free page => inferInstanceAs (Decidable (page ∈ u.outstanding))
  | .write page _ _ => inferInstanceAs (Decidable (page ∈ u.outstanding))

/-- The states reached from an allocator built over the ranges. -/
def Reached (ranges : List PageRange) : PageUse → Prop :=
  Reachable (fun u call t => u.step call = some t) Owned
    fun u => LinkedPages.Built ranges u.allocator ∧ u.outstanding = []

end PageUse

end Emerald.MemoryManagement
