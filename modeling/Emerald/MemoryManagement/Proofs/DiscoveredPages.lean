
import Emerald.MemoryManagement.MemoryDiscovery
import Emerald.MemoryManagement.Proofs.PageConservation

/-!
# The pages that are discovered

What `PhysicalPageAllocator::new` makes of a memory map. It looks at the regions in the order of the
map up to the first one whose pages reach `KERNEL_END`, and `end`, which `free` checks later, is
that of the last region with pages.
-/

namespace Emerald.MemoryManagement
variable {l : List Nat} {page addr count : Nat} {ranges : List PageRange}
variable {start : Nat} {checked : Bool}

/-- The pointers of the pages of a list lead through the rest of it. -/
theorem FreeListAt.of_suffix {memory : PhysicalMemory} {head : Option Nat} {rest : List Nat}
    (list : FreeListAt memory head l) (suffix : page :: rest <:+ l) :
    FreeListAt memory (pointerAt (memory page 0)) rest := by
  induction l generalizing head with
  | nil => cases List.suffix_nil.mp suffix
  | cons first l ih =>
    rcases List.suffix_cons_iff.mp suffix with same | inside
    · cases same
      exact list.2
    · exact ih list.2 inside

/-! ## `free` and the limits -/

namespace LinkedPages
variable {a b : LinkedPages}

/-- Calls leave the limits as they are. -/
structure SameLimits (a b : LinkedPages) : Prop where
  start : b.start = a.start
  «end» : b.end = a.end
  highMemStart : b.highMemStart = a.highMemStart

theorem SameLimits.trans {c : LinkedPages} (first : SameLimits a b) (second : SameLimits b c) :
    SameLimits a c :=
  ⟨second.start.trans first.start, second.end.trans first.end,
    second.highMemStart.trans first.highMemStart⟩

theorem SameLimits.takes_iff (same : SameLimits a b) (page : Nat) :
    b.Takes page ↔ a.Takes page := by
  rw [LinkedPages.takes_iff, LinkedPages.takes_iff, same.start, same.end, same.highMemStart]

theorem free_sameLimits (done : a.free page = some b) : SameLimits a b := by
  obtain ⟨-, rfl⟩ := free_eq_some_iff.mp done
  exact ⟨rfl, rfl, rfl⟩

theorem alloc_sameLimits (done : a.alloc = some (page, b)) : SameLimits a b := by
  obtain ⟨first, -, done⟩ := bind_eq_some.mp done
  cases done
  exact ⟨rfl, rfl, rfl⟩

theorem free_returns_iff : (∃ b, a.free page = some b) ↔ a.Takes page := by
  simp only [free_eq_some_iff, exists_and_left, exists_eq, and_true]

/-- The loop of `init_range` returns if `free` takes each of its pages. -/
theorem freePages_returns (takes : ∀ p ∈ consecutivePages page count, a.Takes p) :
    ∃ b, freePages page count a = some b ∧ SameLimits a b := by
  induction count generalizing page a with
  | zero => exact ⟨a, rfl, rfl, rfl, rfl⟩
  | succ count ih =>
    obtain ⟨c, freed⟩ := free_returns_iff.mpr (takes page List.mem_cons_self)
    have same := free_sameLimits freed
    obtain ⟨b, done, same'⟩ := ih fun p mem =>
      (same.takes_iff p).mpr (takes p (List.mem_cons_of_mem _ mem))
    exact ⟨b, bind_eq_some.mpr ⟨c, freed, done⟩, same.trans same'⟩

/-- The loop of `init_range` writes to its own pages only. -/
theorem freePages_memory {other : Nat} (done : freePages page count a = some b)
    (outside : other ∉ consecutivePages page count) : b.memory other 0 = a.memory other 0 := by
  induction count generalizing page a with
  | zero =>
    cases done
    rfl
  | succ count ih =>
    obtain ⟨c, freed, done⟩ := bind_eq_some.mp done
    rw [consecutivePages, List.mem_cons, not_or] at outside
    obtain ⟨-, rfl⟩ := free_eq_some_iff.mp freed
    rw [ih done outside.2]
    exact (if_neg fun same => outside.1 same.1).trans (if_neg outside.1)

/-- Whatever is on the list after the loop of `init_range`, what was its head before it is reached
from the new one. -/
theorem freePages_reaches_head {first : Nat} (done : freePages page count a = some b)
    (head : a.lowMemFreeListHead = some first) (isPage : IsPage first)
    (pointers : ∀ p ∈ consecutivePages page count, p < 2 ^ 64)
    (list : FreeListAt b.memory b.lowMemFreeListHead l) : ∃ rest, first :: rest <:+ l := by
  induction count generalizing page a first with
  | zero =>
    cases done
    cases l with
    | nil => cases head.symm.trans list
    | cons other rest =>
      cases head.symm.trans list.1
      exact ⟨rest, List.suffix_rfl⟩
  | succ count ih =>
    obtain ⟨c, freed, done⟩ := bind_eq_some.mp done
    obtain ⟨takes, rfl⟩ := free_eq_some_iff.mp freed
    have here : IsPage page :=
      ⟨takes.nonzero, pointers page List.mem_cons_self, takes.aligned⟩
    obtain ⟨rest, suffix⟩ := ih done rfl here fun p mem => pointers p (List.mem_cons_of_mem _ mem)
    have link : b.memory page 0 = pointerWord a.lowMemFreeListHead := by
      have distinct := List.nodup_cons.mp (consecutivePages_nodup page (count + 1))
      rw [freePages_memory done distinct.1]
      exact if_pos ⟨rfl, rfl⟩
    have after := list.of_suffix suffix
    rw [link, pointerAt_pointerWord fun other found => by cases head.symm.trans found; exact isPage,
      head] at after
    cases rest with
    | nil => cases after
    | cons other rest =>
      cases after.1
      exact ⟨rest, (List.suffix_cons ..).trans suffix⟩

/-- The page that `init_range` frees first is on the list after it. -/
theorem freePages_first_mem (done : freePages page (count + 1) a = some b)
    (pointers : ∀ p ∈ consecutivePages page (count + 1), p < 2 ^ 64)
    (list : FreeListAt b.memory b.lowMemFreeListHead l) : page ∈ l := by
  obtain ⟨c, freed, done⟩ := bind_eq_some.mp done
  obtain ⟨takes, rfl⟩ := free_eq_some_iff.mp freed
  have here : IsPage page :=
    ⟨takes.nonzero, pointers page List.mem_cons_self, takes.aligned⟩
  obtain ⟨rest, suffix⟩ := freePages_reaches_head done rfl here
    (fun p mem => pointers p (List.mem_cons_of_mem _ mem)) list
  exact suffix.mem List.mem_cons_self

end LinkedPages

/-! ## Regions -/

/-- What `physical_kernel_end` can be. -/
structure IsKernelEnd (kernelEnd : Nat) : Prop where
  aligned : page4K ∣ kernelEnd
  above : extendedOffset < kernelEnd
  below : kernelEnd ≤ kernelMappedSize

namespace MemoryMap

/-- The first page of a region that is after the kernel. -/
def firstPage (kernelEnd : Nat) (m : MemoryMap) : Nat := max kernelEnd (alignUp m.baseAddr page4K)

/-- The end of the pages of a region that are below `KERNEL_END`. -/
def pagesEnd (m : MemoryMap) : Nat := min (alignDown m.end page4K) kernelMappedSize

/-- The region is available, and it has a page after the kernel and below `KERNEL_END`. -/
def HasPages (kernelEnd : Nat) (m : MemoryMap) : Prop :=
  m.memType = .available ∧ m.firstPage kernelEnd < m.pagesEnd

instance (kernelEnd : Nat) : DecidablePred (HasPages kernelEnd) := fun m =>
  inferInstanceAs (Decidable (m.memType = .available ∧ m.firstPage kernelEnd < m.pagesEnd))

/-- `new` does not look at the map after this region. -/
def Stops (kernelEnd : Nat) (m : MemoryMap) : Prop :=
  m.HasPages kernelEnd ∧ kernelMappedSize ≤ m.end

instance (kernelEnd : Nat) : DecidablePred (Stops kernelEnd) := fun m =>
  inferInstanceAs (Decidable (m.HasPages kernelEnd ∧ kernelMappedSize ≤ m.end))

/-- The last place where a region can start for `physical2virtual` to be right about its first
page. -/
def lastStart (checked : Bool) : Nat :=
  if checked then kernelMappedSize - page4K else 2 ^ 64 - kernelBase - page4K

/-- The region holds the kernel and all that `physical_kernel_end` leaves out, or it starts after
that and not too high. -/
def Usable (checked : Bool) (kernelEnd : Nat) (m : MemoryMap) : Prop :=
  (m.baseAddr ≤ extendedOffset ∧ kernelEnd ≤ m.end ∧
    (checked = true → kernelEnd < kernelMappedSize)) ∨
  (kernelEnd ≤ m.baseAddr ∧ m.baseAddr ≤ lastStart checked)

instance (checked : Bool) (kernelEnd : Nat) : DecidablePred (Usable checked kernelEnd) := fun _ =>
  inferInstanceAs (Decidable (_ ∨ _))

/-- The addresses of the pages of a region. -/
def range (kernelEnd : Nat) (m : MemoryMap) : PageRange where
  start := physical2virtual (m.firstPage kernelEnd)
  «end» := physical2virtual m.pagesEnd
  pointer := by
    have upto : m.pagesEnd ≤ kernelMappedSize := Nat.min_le_right ..
    unfold physical2virtual
    simp only [kernelMappedSize, kernelBase] at upto ⊢
    omega

end MemoryMap

theorem virtual2physical_kernelEnd : virtual2physical kernelEnd = kernelMappedSize := rfl

theorem virtual2physical_kernelLink : virtual2physical kernelLink = extendedOffset := rfl

theorem physical2virtualIn_of_lt (small : addr < 2 ^ 64 - kernelBase)
    (mapped : checked = true → addr < kernelMappedSize) :
    physical2virtualIn checked addr = some (physical2virtual addr) := by
  unfold physical2virtualIn
  rw [if_neg fun high => Nat.not_lt_of_le high.2 (mapped high.1), wrapAdd, Nat.mod_eq_of_lt]
  · rfl
  · simp only [kernelBase] at small ⊢
    omega

theorem alignUpIn_of_le (small : addr ≤ MemoryMap.lastStart checked) :
    alignUpIn checked addr = some (alignUp addr page4K) := by
  have low : addr + page4K < 2 ^ 64 := by
    unfold MemoryMap.lastStart at small
    simp only [kernelMappedSize, kernelBase, page4K] at small ⊢
    split at small <;> omega
  unfold alignUpIn
  rw [if_neg fun high => Nat.not_lt_of_le high.2 low, wrapAdd, Nat.mod_eq_of_lt]
  · rfl
  · omega

theorem alignUp_le_lastStart (small : addr ≤ MemoryMap.lastStart checked) :
    alignUp addr page4K ≤ MemoryMap.lastStart checked := by
  refine alignUp_le (by decide) ?_ small
  cases checked <;> decide

namespace LinkedPages
variable {checked : Bool} {kernelEnd base high : Nat} {m : MemoryMap} {a b : LinkedPages}

/-- `high_mem_start` as the body of the loop computes it. -/
def highMemStartOf (m : MemoryMap) : Nat :=
  if kernelMappedSize ≤ m.end then MemoryManagement.kernelEnd else 0

theorem kernelMappedSize_le_alignDown_iff (addr : Nat) :
    kernelMappedSize ≤ alignDown addr page4K ↔ kernelMappedSize ≤ addr := by
  unfold alignDown
  simp only [kernelMappedSize, page4K]
  omega

theorem endVirtual_eq (checked : Bool) (m : MemoryMap) :
    endVirtual checked m = some (physical2virtual m.pagesEnd, highMemStartOf m) := by
  unfold endVirtual highMemStartOf
  rw [virtual2physical_kernelEnd]
  by_cases high : kernelMappedSize ≤ alignDown m.end page4K
  · rw [if_pos high, if_pos ((kernelMappedSize_le_alignDown_iff _).mp high), MemoryMap.pagesEnd,
      Nat.min_eq_right high]
    rfl
  · have low : alignDown m.end page4K < 2 ^ 64 - kernelBase := by
      simp only [kernelMappedSize, kernelBase] at high ⊢
      omega
    rw [if_neg high, if_neg fun reaches => high ((kernelMappedSize_le_alignDown_iff _).mpr reaches),
      physical2virtualIn_of_lt low fun _ => Nat.lt_of_not_le high, MemoryMap.pagesEnd,
      Nat.min_eq_left (Nat.le_of_not_le high)]
    rfl

theorem firstPage_of_low (isEnd : IsKernelEnd kernelEnd) (low : m.baseAddr ≤ extendedOffset) :
    m.firstPage kernelEnd = kernelEnd :=
  max_eq_left (alignUp_le (by decide) isEnd.aligned (le_trans low isEnd.above.le))

theorem firstPage_of_after (after : kernelEnd ≤ m.baseAddr) :
    m.firstPage kernelEnd = alignUp m.baseAddr page4K :=
  max_eq_right (le_trans after (le_alignUp _ (by decide)))

/-- A usable region is used from its first page on, and `start` is set if it holds the kernel. -/
theorem startPhysical_usable (isEnd : IsKernelEnd kernelEnd) (usable : m.Usable checked kernelEnd) :
    ∃ start, (start = a.start ∨ start = physical2virtual kernelEnd) ∧
      startPhysical checked kernelEnd m a =
        some (m.firstPage kernelEnd, { a with start := start }) := by
  have above := isEnd.above
  have below := isEnd.below
  unfold startPhysical
  rw [virtual2physical_kernelLink]
  by_cases kernel : m.baseAddr ≤ extendedOffset ∧ kernelEnd ≤ m.end
  · have mapped : checked = true → kernelEnd < kernelMappedSize := by
      rcases usable with ⟨-, -, mapped⟩ | ⟨after, -⟩
      · exact mapped
      · omega
    have low : kernelEnd < 2 ^ 64 - kernelBase := by
      simp only [kernelMappedSize, kernelBase] at below ⊢
      omega
    rw [if_pos kernel, physical2virtualIn_of_lt low mapped, firstPage_of_low isEnd kernel.1]
    exact ⟨_, .inr rfl, rfl⟩
  · rcases usable with ⟨low, reaches, -⟩ | ⟨after, low⟩
    · exact absurd ⟨low, reaches⟩ kernel
    · rw [if_neg kernel, if_pos after, alignUpIn_of_le low, firstPage_of_after after]
      exact ⟨a.start, .inl rfl, rfl⟩

theorem firstPage_small (isEnd : IsKernelEnd kernelEnd) (usable : m.Usable checked kernelEnd) :
    m.firstPage kernelEnd < 2 ^ 64 - kernelBase ∧
      (checked = true → m.firstPage kernelEnd < kernelMappedSize) := by
  have mappedSmall : kernelMappedSize < 2 ^ 64 - kernelBase := by decide
  rcases usable with ⟨low, -, mapped⟩ | ⟨after, low⟩
  · rw [firstPage_of_low isEnd low]
    exact ⟨lt_of_le_of_lt isEnd.below mappedSmall, mapped⟩
  · have upto := alignUp_le_lastStart low
    rw [firstPage_of_after after]
    unfold MemoryMap.lastStart at upto
    cases checked with
    | false =>
      rw [if_neg Bool.false_ne_true] at upto
      refine ⟨?_, nofun⟩
      simp only [kernelBase, page4K] at upto ⊢
      omega
    | true =>
      rw [if_pos rfl] at upto
      simp only [kernelBase, page4K, kernelMappedSize] at upto ⊢
      omega

/-- What the body of the loop does with a usable region. -/
theorem visitRegion_usable (isEnd : IsKernelEnd kernelEnd) (available : m.memType = .available)
    (notBelow : extendedOffset ≤ m.end) (usable : m.Usable checked kernelEnd) :
    ∃ start, (start = a.start ∨ start = physical2virtual kernelEnd) ∧
      visitRegion checked kernelEnd m a =
        useRegion (physical2virtual (m.firstPage kernelEnd)) (physical2virtual m.pagesEnd)
          (highMemStartOf m) { a with start := start } := by
  obtain ⟨start, choice, first⟩ := startPhysical_usable (a := a) isEnd usable
  obtain ⟨small, mapped⟩ := firstPage_small isEnd usable
  refine ⟨start, choice, ?_⟩
  unfold visitRegion
  rw [if_neg (Nat.not_lt_of_le notBelow), if_neg (not_not_intro available), first, some_bind]
  simp only
  rw [endVirtual_eq, some_bind]
  rw [physical2virtualIn_of_lt small mapped, some_bind]

theorem visitRegion_skipped (skipped : m.memType ≠ .available ∨ m.end < extendedOffset) :
    visitRegion checked kernelEnd m a = some (.yield a) := by
  unfold visitRegion
  by_cases low : m.end < extendedOffset
  · rw [if_pos low]
  · rw [if_neg low, if_pos (skipped.resolve_right low)]

/-! ## The pages of a region -/

theorem pagesEnd_le_end (m : MemoryMap) : m.pagesEnd ≤ m.end :=
  (min_le_left ..).trans (alignDown_le ..)

theorem physical2virtual_lt_iff {addr' : Nat} :
    physical2virtual addr < physical2virtual addr' ↔ addr < addr' :=
  Nat.add_lt_add_iff_right

theorem page4K_dvd_physical2virtual (aligned : page4K ∣ addr) : page4K ∣ physical2virtual addr :=
  dvd_add aligned (by decide)

theorem hasPages_of_not_skipped (isEnd : IsKernelEnd kernelEnd) (pages : m.HasPages kernelEnd) :
    extendedOffset ≤ m.end := by
  have first : kernelEnd ≤ m.firstPage kernelEnd := le_max_left ..
  have upto := pagesEnd_le_end m
  have above := isEnd.above
  have some := pages.2
  omega

theorem dvd_firstPage (isEnd : IsKernelEnd kernelEnd) (m : MemoryMap) :
    page4K ∣ m.firstPage kernelEnd := by
  unfold MemoryMap.firstPage
  rcases le_total kernelEnd (alignUp m.baseAddr page4K) with less | more
  · rw [max_eq_right less]
    exact dvd_alignUp ..
  · rw [max_eq_left more]
    exact isEnd.aligned

theorem dvd_pagesEnd (m : MemoryMap) : page4K ∣ m.pagesEnd := by
  unfold MemoryMap.pagesEnd
  rcases le_total (alignDown m.end page4K) kernelMappedSize with less | more
  · rw [min_eq_left less]
    exact dvd_alignDown ..
  · rw [min_eq_right more]
    decide

theorem alignDown_of_dvd {alignment : Nat} (aligned : alignment ∣ addr) :
    alignDown addr alignment = addr := by
  rw [alignDown, Nat.mod_eq_zero_of_dvd aligned, Nat.sub_zero]

theorem range_first (isEnd : IsKernelEnd kernelEnd) (m : MemoryMap) :
    (m.range kernelEnd).first = physical2virtual (m.firstPage kernelEnd) :=
  alignUp_of_dvd (by decide) (page4K_dvd_physical2virtual (dvd_firstPage isEnd m))

theorem alignDown_range_end (m : MemoryMap) :
    alignDown (m.range kernelEnd).end page4K = physical2virtual m.pagesEnd :=
  alignDown_of_dvd (page4K_dvd_physical2virtual (dvd_pagesEnd m))

theorem ofAddresses_range (m : MemoryMap) :
    PageRange.ofAddresses (physical2virtual (m.firstPage kernelEnd))
      (physical2virtual m.pagesEnd) = m.range kernelEnd := by
  rw [PageRange.mk.injEq]
  exact ⟨rfl, Nat.mod_eq_of_lt (m.range kernelEnd).pointer⟩

/-- `init_range` returns for a range of pages within the limits. -/
theorem initRange_returns (isEnd : IsKernelEnd kernelEnd) (pages : m.HasPages kernelEnd)
    (start : a.start ≤ physical2virtual kernelEnd) (upto : a.end = physical2virtual m.pagesEnd)
    (low : a.highMemStart = 0) :
    ∃ b, initRange (m.range kernelEnd) a = some b ∧ SameLimits a b := by
  unfold initRange
  rw [range_first isEnd, alignDown_range_end, if_pos (physical2virtual_lt_iff.mpr pages.2),
    ← range_first isEnd]
  refine freePages_returns fun page mem => ?_
  obtain ⟨aligned, above, below⟩ := PageRange.mem_pages mem
  have first : physical2virtual kernelEnd ≤ (m.range kernelEnd).start :=
    Nat.add_le_add_right (Nat.le_max_left ..) _
  have last : (m.range kernelEnd).end = a.end := upto.symm
  have pos : 0 < physical2virtual kernelEnd := Nat.add_pos_right _ (by decide)
  have whole : 0 < page4K := by decide
  exact ⟨by omega, aligned, by omega, by omega, .inl low⟩

/-! ## The loop -/

/-- The regions with pages. -/
def withPages (kernelEnd : Nat) (maps : List MemoryMap) : List MemoryMap :=
  maps.filter fun m => decide (m.HasPages kernelEnd)

/-- The regions that `new` looks at. -/
def looksAt (kernelEnd : Nat) : List MemoryMap → List MemoryMap
  | [] => []
  | m :: rest => m :: if m.Stops kernelEnd then [] else looksAt kernelEnd rest

/-- The allocator after the loop has looked at the given regions. -/
structure Filled (kernelEnd : Nat) (maps : List MemoryMap) (a : LinkedPages) : Prop where
  initialised : Initialised
    ((withPages kernelEnd maps).reverse.map (MemoryMap.range kernelEnd)) a
  start : a.start = 0 ∨ a.start = physical2virtual kernelEnd
  «end» : ∀ m ∈ (withPages kernelEnd maps).getLast?, a.end = physical2virtual m.pagesEnd

theorem withPages_append (kernelEnd : Nat) (maps maps' : List MemoryMap) :
    withPages kernelEnd (maps ++ maps') = withPages kernelEnd maps ++ withPages kernelEnd maps' :=
  List.filter_append ..

theorem withPages_singleton_of_not (none : ¬ m.HasPages kernelEnd) :
    withPages kernelEnd [m] = [] := by
  unfold withPages
  rw [List.filter_singleton, decide_eq_false none]
  rfl

theorem withPages_singleton (pages : m.HasPages kernelEnd) : withPages kernelEnd [m] = [m] := by
  unfold withPages
  rw [List.filter_singleton, decide_eq_true pages]
  rfl

variable {maps : List MemoryMap} {next : ForInStep LinkedPages}

theorem Filled.start_le (filled : Filled kernelEnd maps a) :
    a.start ≤ physical2virtual kernelEnd := by
  rcases filled.start with zero | set
  · rw [zero]
    exact Nat.zero_le _
  · rw [set]

/-- A region without pages changes nothing but `start`. -/
theorem Filled.without_pages (filled : Filled kernelEnd maps a) (none : ¬ m.HasPages kernelEnd)
    (choice : start = a.start ∨ start = physical2virtual kernelEnd) :
    Filled kernelEnd (maps ++ [m]) { a with start := start } := by
  have same : withPages kernelEnd (maps ++ [m]) = withPages kernelEnd maps := by
    rw [withPages_append, withPages_singleton_of_not none, List.append_nil]
  refine ⟨?_, ?_, ?_⟩
  · rw [same]
    exact .limits start a.end a.highMemStart filled.initialised
  · rcases choice with rfl | set
    · exact filled.start
    · exact .inr set
  · rw [same]
    exact filled.end

/-- The pages of a region become free. -/
theorem Filled.with_pages (isEnd : IsKernelEnd kernelEnd) (filled : Filled kernelEnd maps a)
    (pages : m.HasPages kernelEnd) (low : a.highMemStart = 0)
    (choice : start = a.start ∨ start = physical2virtual kernelEnd) (highMemStart : Nat) :
    ∃ b, initRange (m.range kernelEnd)
        { a with start := start, «end» := physical2virtual m.pagesEnd } = some b ∧
      b.highMemStart = 0 ∧
      Filled kernelEnd (maps ++ [m]) { b with highMemStart := highMemStart } := by
  have chosen : start = 0 ∨ start = physical2virtual kernelEnd := by
    rcases choice with rfl | set
    · exact filled.start
    · exact .inr set
  have below : start ≤ physical2virtual kernelEnd := by
    rcases chosen with zero | set <;> omega
  obtain ⟨b, done, same⟩ := initRange_returns
    (a := { a with start := start, «end» := physical2virtual m.pagesEnd }) isEnd pages below rfl low
  have more : withPages kernelEnd (maps ++ [m]) = withPages kernelEnd maps ++ [m] := by
    rw [withPages_append, withPages_singleton pages]
  refine ⟨b, done, same.highMemStart.trans low, ?_, ?_, ?_⟩
  · rw [more, List.reverse_append]
    exact .limits b.start b.end highMemStart
      (.range _ (.limits start _ a.highMemStart filled.initialised) done)
  · have kept : b.start = start := same.start
    show b.start = 0 ∨ b.start = physical2virtual kernelEnd
    rw [kept]
    exact chosen
  · rw [more, List.getLast?_concat]
    rintro other ⟨⟩
    exact same.end

/-- The region is not looked at closely or it is usable. -/
def Fine (checked : Bool) (kernelEnd : Nat) (m : MemoryMap) : Prop :=
  m.memType = .available → extendedOffset ≤ m.end → m.Usable checked kernelEnd

instance (checked : Bool) (kernelEnd : Nat) : DecidablePred (Fine checked kernelEnd) := fun m =>
  inferInstanceAs (Decidable (m.memType = .available → _))

/-- How the body of the loop ends for a region. -/
structure Visited (checked : Bool) (kernelEnd : Nat) (maps : List MemoryMap) (m : MemoryMap)
    (a b : LinkedPages) : Prop where
  returns : visitRegion checked kernelEnd m a =
    some (if m.Stops kernelEnd then .done b else .yield b)
  filled : Filled kernelEnd (maps ++ [m]) b
  low : b.highMemStart = if m.Stops kernelEnd then MemoryManagement.kernelEnd else 0

section
variable (isEnd : IsKernelEnd kernelEnd)
include isEnd

section
variable (filled : Filled kernelEnd maps a)
include filled

section
variable (low : a.highMemStart = 0)
include low

section
variable (fine : Fine checked kernelEnd m)
include fine

theorem Filled.visit_without_pages
    (none : ¬ m.HasPages kernelEnd) : ∃ b, Visited checked kernelEnd maps m a b := by
  have goesOn : ¬ m.Stops kernelEnd := fun stops => none stops.1
  by_cases skipped : m.memType ≠ .available ∨ m.end < extendedOffset
  · refine ⟨a, ?_, filled.without_pages none (.inl rfl), ?_⟩
    · rw [visitRegion_skipped skipped, if_neg goesOn]
    · rw [low, if_neg goesOn]
  · simp only [not_or, not_not, not_lt] at skipped
    obtain ⟨available, notBelow⟩ := skipped
    obtain ⟨start, choice, visit⟩ := visitRegion_usable (a := a) isEnd available notBelow
      (fine available notBelow)
    refine ⟨{ a with start := start }, ?_, filled.without_pages none choice, ?_⟩
    · rw [visit, useRegion, if_neg, if_neg goesOn]
      rw [physical2virtual_lt_iff]
      exact fun some => none ⟨available, some⟩
    · rw [if_neg goesOn]
      exact low

theorem Filled.visit_with_pages (pages : m.HasPages kernelEnd) :
    ∃ b, Visited checked kernelEnd maps m a b := by
  have notBelow := hasPages_of_not_skipped isEnd pages
  obtain ⟨start, choice, visit⟩ := visitRegion_usable (a := a) isEnd pages.1 notBelow
    (fine pages.1 notBelow)
  obtain ⟨b, done, lowAfter, after⟩ :=
    filled.with_pages isEnd pages low choice (highMemStartOf m)
  have body : visitRegion checked kernelEnd m a =
      if highMemStartOf m ≠ 0 then some (.done { b with highMemStart := highMemStartOf m })
      else some (.yield b) := by
    rw [visit, useRegion, if_pos (physical2virtual_lt_iff.mpr pages.2), ofAddresses_range, done,
      some_bind]
  refine ⟨{ b with highMemStart := highMemStartOf m }, ?_, after, ?_⟩
  all_goals by_cases reaches : kernelMappedSize ≤ m.end
  · have high : highMemStartOf m = MemoryManagement.kernelEnd := if_pos reaches
    have stops : m.Stops kernelEnd := ⟨pages, reaches⟩
    rw [body, if_pos stops, if_pos]
    rw [high]
    decide
  · have high : highMemStartOf m = 0 := if_neg reaches
    have goesOn : ¬ m.Stops kernelEnd := fun stops => reaches stops.2
    rw [body, if_neg goesOn, high]
    cases b
    cases lowAfter
    rfl
  · have stops : m.Stops kernelEnd := ⟨pages, reaches⟩
    rw [if_pos stops]
    exact if_pos reaches
  · have goesOn : ¬ m.Stops kernelEnd := fun stops => reaches stops.2
    rw [if_neg goesOn]
    exact if_neg reaches

theorem Filled.visit :
    ∃ b, Visited checked kernelEnd maps m a b := by
  by_cases pages : m.HasPages kernelEnd
  · exact filled.visit_with_pages isEnd low fine pages
  · exact filled.visit_without_pages isEnd low fine pages

end

/-- The loop over regions that are all fine. -/
theorem Filled.visitRegions {rest : List MemoryMap}
    (fine : ∀ m ∈ looksAt kernelEnd rest, Fine checked kernelEnd m) :
    ∃ b, visitRegions checked kernelEnd rest a = some b ∧
      Filled kernelEnd (maps ++ looksAt kernelEnd rest) b ∧
      (b.highMemStart = 0 ∨ b.highMemStart = MemoryManagement.kernelEnd) := by
  induction rest generalizing maps a with
  | nil =>
    refine ⟨a, rfl, ?_, .inl low⟩
    rw [looksAt, List.append_nil]
    exact filled
  | cons m rest ih =>
    obtain ⟨b, visit, after, high⟩ := filled.visit isEnd low (fine m List.mem_cons_self)
    rw [LinkedPages.visitRegions, visit]
    unfold looksAt at fine ⊢
    by_cases stops : m.Stops kernelEnd
    · simp only [if_pos stops] at high ⊢
      exact ⟨b, rfl, after, .inr high⟩
    · simp only [if_neg stops] at high fine ⊢
      obtain ⟨c, done, end_, limits⟩ := ih after high fun other mem =>
        fine other (List.mem_cons_of_mem _ mem)
      rw [List.append_assoc] at end_
      exact ⟨c, done, end_, limits⟩

end

end

end

/-! ## Regions that are not usable -/

/-- There is no list of free pages, or one of them is not after the kernel. -/
def ListsLowPage (kernelEnd : Nat) (b : LinkedPages) : Prop :=
  ∀ l, FreeListAt b.memory b.lowMemFreeListHead l → ∃ page ∈ l, page < physical2virtual kernelEnd

/-- The first page that `init_range` frees is on the list after it. -/
theorem initRange_first_mem {r : PageRange} (done : initRange r a = some b)
    (list : FreeListAt b.memory b.lowMemFreeListHead l) : r.first ∈ l := by
  obtain ⟨some, done⟩ := Option.ite_none_right_eq_some.mp done
  have aligned : page4K ∣ alignDown r.end page4K - r.first :=
    Nat.dvd_sub (dvd_alignDown ..) (dvd_alignUp ..)
  have pos : 0 < r.count :=
    Nat.div_pos (Nat.le_of_dvd (Nat.sub_pos_of_lt some) aligned) (by decide)
  have pointers : ∀ p ∈ r.pages, p < 2 ^ 64 := fun p mem => PageRange.mem_pages_lt mem
  unfold PageRange.pages at pointers
  obtain ⟨count, more⟩ := Nat.exists_eq_succ_of_ne_zero (ne_of_gt pos)
  rw [more] at done pointers
  exact freePages_first_mem done pointers list

/-- A start that is not after the kernel, as `physical2virtual` has wrapped around. -/
theorem useRegion_low (low : start < physical2virtual kernelEnd)
    (below : start < MemoryManagement.kernelEnd) (aligned : page4K ∣ start) (nonzero : high ≠ 0) :
    useRegion start MemoryManagement.kernelEnd high a = none ∨
      ∃ b, useRegion start MemoryManagement.kernelEnd high a = some (.done b) ∧
        ListsLowPage kernelEnd b := by
  unfold useRegion
  rw [if_pos below]
  cases done : initRange (.ofAddresses start MemoryManagement.kernelEnd)
      { a with «end» := MemoryManagement.kernelEnd } with
  | none => exact .inl rfl
  | some b =>
    rw [some_bind, if_pos nonzero]
    refine .inr ⟨{ b with highMemStart := high }, rfl, ?_⟩
    intro l list
    have mem := initRange_first_mem done list
    rw [PageRange.first, PageRange.ofAddresses, alignUp_of_dvd (by decide) aligned] at mem
    exact ⟨start, mem, low⟩

/-- Where a region that starts too high is taken to start. -/
theorem wrapped_start (high : MemoryMap.lastStart false < base) (pointer : base < 2 ^ 64) :
    wrapAdd (alignDown (wrapAdd base (page4K - 1)) page4K) kernelBase ≤ kernelBase ∧
      page4K ∣ wrapAdd (alignDown (wrapAdd base (page4K - 1)) page4K) kernelBase := by
  unfold MemoryMap.lastStart at high
  rw [if_neg Bool.false_ne_true] at high
  unfold wrapAdd alignDown
  simp only [kernelBase, page4K] at high ⊢
  omega

/-- The debug assertion of `physical2virtual` catches a region that starts too high. -/
theorem physical2virtualIn_high (high : MemoryMap.lastStart true < base)
    (found : alignUpIn true base = some start) : physical2virtualIn true start = none := by
  rw [alignUpIn, Option.ite_none_left_eq_some] at found
  obtain ⟨fits, found⟩ := found
  rw [← Option.some.inj found, physical2virtualIn, if_pos]
  refine ⟨rfl, ?_⟩
  unfold MemoryMap.lastStart at high
  rw [if_pos rfl] at high
  simp only [true_and] at fits
  unfold wrapAdd alignDown
  simp only [kernelMappedSize, page4K] at high fits ⊢
  omega

/-- The end of a region that starts too high is not below `KERNEL_END`. -/
theorem endVirtual_high (high : MemoryMap.lastStart false < m.baseAddr) :
    endVirtual false m = some (MemoryManagement.kernelEnd, MemoryManagement.kernelEnd) := by
  have reaches : kernelMappedSize ≤ alignDown m.end page4K := by
    have below : kernelMappedSize ≤ MemoryMap.lastStart false := by decide
    have inside : m.baseAddr ≤ m.end := Nat.le_add_right ..
    rw [kernelMappedSize_le_alignDown_iff]
    omega
  unfold endVirtual
  rw [virtual2physical_kernelEnd, if_pos reaches]

/-- A region that is not usable makes the loop panic, or it ends with a page on the list that is not
after the kernel. -/
theorem visitRegion_not_fine (isEnd : IsKernelEnd kernelEnd) (bad : ¬ Fine checked kernelEnd m) :
    visitRegion checked kernelEnd m a = none ∨
      ∃ b, visitRegion checked kernelEnd m a = some (.done b) ∧ ListsLowPage kernelEnd b := by
  unfold Fine at bad
  simp only [Classical.not_imp] at bad
  obtain ⟨available, notBelow, bad⟩ := bad
  unfold visitRegion startPhysical
  rw [if_neg (Nat.not_lt_of_le notBelow), if_neg (not_not_intro available),
    virtual2physical_kernelLink]
  by_cases kernel : m.baseAddr ≤ extendedOffset ∧ kernelEnd ≤ m.end
  · have unmapped : checked = true ∧ kernelMappedSize ≤ kernelEnd := by
      by_contra mapped
      exact bad (.inl ⟨kernel.1, kernel.2, fun on => Nat.lt_of_not_le fun more =>
        mapped ⟨on, more⟩⟩)
    rw [if_pos kernel, physical2virtualIn, if_pos unmapped]
    exact .inl rfl
  · rw [if_neg kernel]
    by_cases after : kernelEnd ≤ m.baseAddr
    · have high : MemoryMap.lastStart checked < m.baseAddr :=
        Nat.lt_of_not_le fun low => bad (.inr ⟨after, low⟩)
      rw [if_pos after]
      cases checked with
      | true =>
        cases found : alignUpIn true m.baseAddr with
        | none => exact .inl rfl
        | some start =>
          rw [Option.map_some, some_bind]
          simp only
          rw [endVirtual_eq]
          rw [physical2virtualIn_high high found]
          exact .inl rfl
      | false =>
        have pointer : m.baseAddr < 2 ^ 64 := Nat.lt_of_le_of_lt (Nat.le_add_right ..) m.fits
        obtain ⟨low, aligned⟩ := wrapped_start high pointer
        have above := isEnd.above
        have below : kernelBase < physical2virtual kernelEnd := Nat.lt_add_of_pos_left (by omega)
        rw [alignUpIn, if_neg fun on => Bool.false_ne_true on.1, Option.map_some, some_bind]
        simp only
        rw [endVirtual_high high, some_bind]
        rw [physical2virtualIn, if_neg fun on => Bool.false_ne_true on.1, some_bind]
        exact useRegion_low (Nat.lt_of_le_of_lt low below)
          (Nat.lt_of_le_of_lt low (by decide)) aligned (by decide)
    · rw [if_neg after]
      exact .inl rfl

/-- The loop over regions of which it looks at one that is not fine. -/
theorem Filled.visitRegions_not_fine (isEnd : IsKernelEnd kernelEnd) {rest : List MemoryMap}
    (filled : Filled kernelEnd maps a) (low : a.highMemStart = 0)
    (bad : ¬ ∀ m ∈ looksAt kernelEnd rest, Fine checked kernelEnd m) :
    LinkedPages.visitRegions checked kernelEnd rest a = none ∨
      ∃ b, LinkedPages.visitRegions checked kernelEnd rest a = some b ∧
        ListsLowPage kernelEnd b := by
  induction rest generalizing maps a with
  | nil => exact absurd (List.forall_mem_nil _) bad
  | cons m rest ih =>
    rw [LinkedPages.visitRegions]
    by_cases fine : Fine checked kernelEnd m
    · obtain ⟨b, visit, after, high⟩ := filled.visit isEnd low fine
      have goesOn : ¬ m.Stops kernelEnd := by
        intro stops
        apply bad
        unfold looksAt
        rw [if_pos stops]
        exact List.forall_mem_singleton.mpr fine
      rw [if_neg goesOn] at visit high
      rw [visit]
      refine ih after high fun allFine => bad ?_
      unfold looksAt
      rw [if_neg goesOn]
      exact List.forall_mem_cons.mpr ⟨fine, allFine⟩
    · rcases visitRegion_not_fine (a := a) isEnd fine with panics | ⟨b, ends, lists⟩
      · rw [panics]
        exact .inl rfl
      · rw [ends]
        exact .inr ⟨b, rfl, lists⟩

/-! ## The loop as a whole -/

theorem filled_blank (kernelEnd : Nat) (memory : PhysicalMemory) :
    Filled kernelEnd [] (blank memory) :=
  ⟨.start ⟨memory, rfl⟩, .inl rfl, fun _ none => nomatch none⟩

/-! ## `new` builds with `init_range`

This holds for every map, also for one that makes `new` free pages it should not. -/

theorem startPhysical_initialised (initialised : Initialised ranges a)
    (done : startPhysical checked kernelEnd m a = some (start, b)) : Initialised ranges b := by
  unfold startPhysical at done
  split at done
  · obtain ⟨first, -, result⟩ := Option.map_eq_some_iff.mp done
    cases result
    exact .limits _ _ _ initialised
  · split at done
    · obtain ⟨first, -, result⟩ := Option.map_eq_some_iff.mp done
      cases result
      exact initialised
    · cases done

/-- What the body of the loop leaves, whether or not it is the end of the loop. -/
def stepState : ForInStep LinkedPages → LinkedPages
  | .done a => a
  | .yield a => a

theorem useRegion_initialised {end_ : Nat}
    (initialised : Initialised ranges a) (done : useRegion start end_ high a = some next) :
    ∃ ranges', Initialised ranges' (stepState next) := by
  unfold useRegion at done
  split at done
  · obtain ⟨b, filled, done⟩ := bind_eq_some.mp done
    have more : Initialised (.ofAddresses start end_ :: ranges) b :=
      .range _ (.limits _ _ _ initialised) filled
    split at done
    · cases done
      exact ⟨_, .limits _ _ _ more⟩
    · cases done
      exact ⟨_, more⟩
  · cases done
    exact ⟨_, initialised⟩

theorem visitRegion_initialised
    (initialised : Initialised ranges a) (done : visitRegion checked kernelEnd m a = some next) :
    ∃ ranges', Initialised ranges' (stepState next) := by
  unfold visitRegion at done
  split at done
  · cases done
    exact ⟨ranges, initialised⟩
  · split at done
    · cases done
      exact ⟨ranges, initialised⟩
    · obtain ⟨⟨first, b⟩, start, done⟩ := bind_eq_some.mp done
      obtain ⟨⟨end_, high⟩, -, done⟩ := bind_eq_some.mp done
      obtain ⟨startVirtual, -, done⟩ := bind_eq_some.mp done
      exact useRegion_initialised (startPhysical_initialised initialised start) done

theorem visitRegions_initialised (initialised : Initialised ranges a)
    (done : visitRegions checked kernelEnd maps a = some b) : ∃ ranges', Initialised ranges' b := by
  induction maps generalizing ranges a with
  | nil =>
    cases done
    exact ⟨ranges, initialised⟩
  | cons m rest ih =>
    obtain ⟨next, visit, done⟩ := bind_eq_some.mp done
    obtain ⟨ranges', after⟩ := visitRegion_initialised initialised visit
    cases next with
    | done c =>
      cases done
      exact ⟨ranges', after⟩
    | yield c => exact ih after done

theorem new_initialised {info : BootInfo} {memory : PhysicalMemory}
    (done : new checked info memory = some a) : ∃ ranges, Initialised ranges a := by
  obtain ⟨kernelEnd, -, done⟩ := bind_eq_some.mp done
  exact visitRegions_initialised (.start ⟨memory, rfl⟩) done

end LinkedPages

end Emerald.MemoryManagement
