
import Emerald.MemoryManagement.LinkedPages

/-!
# Physical pages are handed out once

The pointers in the free pages lead from the head through all free pages and end. Neither `alloc`
nor `free` nor the owner of a page writes to another free page, so at every moment the free pages
and the pages handed out are, without repetition, the pages of the initial ranges.
-/

namespace Emerald.MemoryManagement
variable {head : Option Nat} {page : Nat}

/-- The pointers lead through these pages. -/
def FreeListAt (memory : PhysicalMemory) : Option Nat → List Nat → Prop
  | head, [] => head = none
  | head, page :: rest => head = some page ∧ FreeListAt memory (pointerAt (memory page 0)) rest

/-- The pointers lead through one list at most. -/
theorem FreeListAt.unique {memory : PhysicalMemory} {l l' : List Nat}
    (list : FreeListAt memory head l) (list' : FreeListAt memory head l') : l = l' := by
  induction l generalizing head l' with
  | nil =>
    cases l' with
    | nil => rfl
    | cons page rest => cases list.symm.trans list'.1
  | cons page rest ih =>
    cases l' with
    | nil => cases list.1.symm.trans list'
    | cons page' rest' =>
      cases list.1.symm.trans list'.1
      rw [ih list.2 list'.2]

/-- The list does not depend on the pages that are not in it. -/
theorem FreeListAt.congr {memory memory' : PhysicalMemory} {l : List Nat}
    (list : FreeListAt memory head l) (same : ∀ page ∈ l, memory' page 0 = memory page 0) :
    FreeListAt memory' head l := by
  induction l generalizing head with
  | nil => exact list
  | cons page rest ih =>
    refine ⟨list.1, ?_⟩
    rw [same page (by simp)]
    exact ih list.2 fun other mem => same other (by simp [mem])

/-- What can be the address of a page. -/
structure IsPage (page : Nat) : Prop where
  nonzero : page ≠ 0
  pointer : page < 2 ^ 64
  aligned : page4K ∣ page

theorem pointerAt_pointerWord (pages : ∀ page, head = some page → IsPage page) :
    pointerAt (pointerWord head) = head := by
  cases head with
  | none => rfl
  | some page =>
    obtain ⟨nonzero, pointer, -⟩ := pages page rfl
    have value : (BitVec.ofNat 64 page).toNat = page := by
      rw [BitVec.toNat_ofNat, Nat.mod_eq_of_lt pointer]
    have word : BitVec.ofNat 64 page ≠ 0#64 := by
      intro zero
      rw [zero] at value
      exact nonzero value.symm
    show (if BitVec.ofNat 64 page = 0#64 then none else some (BitVec.ofNat 64 page).toNat) = _
    rw [if_neg word, value]

namespace LinkedPages
variable {a b : LinkedPages} {l : List Nat}

/-- The free pages of an allocator. -/
structure Lists (a : LinkedPages) (l : List Nat) : Prop where
  list : FreeListAt a.memory a.lowMemFreeListHead l
  pages : ∀ page ∈ l, IsPage page

theorem Lists.head_isPage (lists : a.Lists l) (head : a.lowMemFreeListHead = some page) :
    IsPage page := by
  cases l with
  | nil => cases head.symm.trans lists.list
  | cons first rest =>
    cases head.symm.trans lists.list.1
    exact lists.pages page (by simp)

/-- `alloc` takes the first page of the list. -/
theorem Lists.alloc (lists : a.Lists l) (distinct : l.Nodup) (done : a.alloc = some (page, b)) :
    ∃ rest, l = page :: rest ∧ b.Lists rest := by
  obtain ⟨first, head, done⟩ := bind_eq_some.mp done
  cases done
  cases l with
  | nil => cases head.symm.trans lists.list
  | cons other rest =>
    cases head.symm.trans lists.list.1
    refine ⟨rest, rfl, lists.list.2.congr fun next mem => ?_, fun next mem =>
      lists.pages next (by simp [mem])⟩
    have ne : next ≠ page := fun same =>
      (List.nodup_cons.mp distinct).1 (same ▸ mem)
    show PhysicalMemory.fill a.memory page _ next 0 = _
    unfold PhysicalMemory.fill
    rw [if_neg ne]

/-- The pages that `free` takes. -/
@[mk_iff] structure Takes (a : LinkedPages) (page : Nat) : Prop where
  nonzero : page ≠ 0
  aligned : page4K ∣ page
  above : a.start ≤ page
  below : page < a.end
  low : a.highMemStart = 0 ∨ page < a.highMemStart

theorem free_eq_some_iff : a.free page = some b ↔ a.Takes page ∧ b = { a with
    memory := (a.memory.fill page 0x0202020202020202#64).write page 0
      (pointerWord a.lowMemFreeListHead)
    lowMemFreeListHead := some page
    freeCount := a.freeCount + 1 } := by
  unfold free
  rw [Option.ite_none_left_eq_some, Option.ite_none_right_eq_some, Option.some.injEq]
  simp only [not_or, Bool.not_eq_false, not_le, not_lt, isAligned_page4K]
  constructor
  · rintro ⟨⟨nonzero, aligned, below, above⟩, low, rfl⟩
    exact ⟨⟨nonzero, aligned, above, below, low⟩, rfl⟩
  · rintro ⟨⟨nonzero, aligned, above, below, low⟩, rfl⟩
    exact ⟨⟨nonzero, aligned, below, above⟩, low, rfl⟩

/-- `free` puts a page before the others. -/
theorem Lists.free (lists : a.Lists l) (absent : page ∉ l) (pointer : page < 2 ^ 64)
    (done : a.free page = some b) : b.Lists (page :: l) := by
  obtain ⟨takes, rfl⟩ := free_eq_some_iff.mp done
  refine ⟨⟨rfl, ?_⟩, ?_⟩
  · show FreeListAt _ (pointerAt (if _ then _ else _)) l
    rw [if_pos ⟨rfl, rfl⟩, pointerAt_pointerWord fun first found => lists.head_isPage found]
    refine lists.list.congr fun next mem => ?_
    have ne : next ≠ page := fun same => absent (same ▸ mem)
    exact (if_neg fun same => ne same.1).trans (if_neg ne)
  · intro other mem
    rcases List.mem_cons.mp mem with rfl | older
    · exact ⟨takes.nonzero, pointer, takes.aligned⟩
    · exact lists.pages other older

end LinkedPages

/-! ## The initial ranges -/

theorem mem_consecutivePages {count p : Nat} :
    p ∈ consecutivePages page count ↔ ∃ i, i < count ∧ p = page + i * page4K := by
  induction count generalizing page with
  | zero => simp [consecutivePages]
  | succ count ih =>
    rw [consecutivePages, List.mem_cons, ih]
    constructor
    · rintro (rfl | ⟨i, below, rfl⟩)
      · exact ⟨0, by omega, by omega⟩
      · exact ⟨i + 1, by omega, by rw [Nat.succ_mul]; omega⟩
    · rintro ⟨i, below, rfl⟩
      cases i with
      | zero => exact .inl (by omega)
      | succ i => exact .inr ⟨i, by omega, by rw [Nat.succ_mul]; omega⟩

theorem consecutivePages_nodup (page count : Nat) : (consecutivePages page count).Nodup := by
  induction count generalizing page with
  | zero => exact List.nodup_nil
  | succ count ih =>
    refine List.nodup_cons.mpr ⟨fun mem => ?_, ih _⟩
    obtain ⟨i, -, same⟩ := mem_consecutivePages.mp mem
    simp only [page4K] at same
    omega

namespace PageRange
variable {r s : PageRange}

/-- The pages of a range are whole pages inside it. -/
theorem mem_pages (mem : page ∈ r.pages) :
    page4K ∣ page ∧ r.start ≤ page ∧ page + page4K ≤ r.end := by
  obtain ⟨i, below, rfl⟩ := mem_consecutivePages.mp mem
  have first : page4K ∣ r.first := dvd_alignUp ..
  have above : r.start ≤ r.first := le_alignUp _ (by decide)
  have whole : r.count * page4K ≤ alignDown r.end page4K - r.first := Nat.div_mul_le_self ..
  have upto := alignDown_le r.end page4K
  have next := Nat.mul_le_mul_right page4K (Nat.succ_le_of_lt below)
  rw [Nat.succ_mul] at next
  have pos : 0 < page4K := by decide
  exact ⟨dvd_add first (dvd_mul_left ..), by omega, by omega⟩

theorem mem_pages_lt (mem : page ∈ r.pages) : page < 2 ^ 64 := by
  have upto := (mem_pages mem).2.2
  have := r.pointer
  omega

/-- The whole pages inside a range are its pages. -/
theorem mem_pages_of_inside (aligned : page4K ∣ page) (above : r.start ≤ page)
    (below : page + page4K ≤ r.end) : page ∈ r.pages := by
  have from_ : r.first ≤ page := alignUp_le (by decide) aligned above
  have upto : page + page4K ≤ alignDown r.end page4K :=
    le_alignDown (dvd_add aligned (dvd_refl _)) below
  have dvd : page4K ∣ r.first := dvd_alignUp ..
  obtain ⟨i, distance⟩ := Nat.dvd_sub aligned dvd
  rw [mul_comm] at distance
  refine mem_consecutivePages.mpr ⟨i, Nat.succ_le_iff.mp ?_, by omega⟩
  rw [count, Nat.le_div_iff_mul_le (by decide), Nat.succ_mul]
  omega

theorem pages_disjoint (apart : r.Apart s) (mem : page ∈ r.pages) : page ∉ s.pages := by
  intro mem'
  have first := mem_pages mem
  have second := mem_pages mem'
  unfold Apart Emerald.Apart size at apart
  simp only [page4K] at first second
  omega

end PageRange

namespace LinkedPages
variable {a b : LinkedPages} {l : List Nat} {ranges : List PageRange}

/-- The loop of `init_range` adds its pages to the list. -/
theorem Lists.freePages {count : Nat} (lists : a.Lists l)
    (absent : ∀ p ∈ consecutivePages page count, p ∉ l)
    (pointer : ∀ p ∈ consecutivePages page count, p < 2 ^ 64)
    (done : freePages page count a = some b) :
    ∃ l', b.Lists l' ∧ l'.Perm (consecutivePages page count ++ l) := by
  induction count generalizing page a l with
  | zero =>
    cases done
    exact ⟨l, lists, List.Perm.refl _⟩
  | succ count ih =>
    obtain ⟨c, freed, done⟩ := bind_eq_some.mp done
    have here : page ∈ consecutivePages page (count + 1) := List.mem_cons_self
    have next := lists.free (absent page here) (pointer page here) freed
    have distinct := List.nodup_cons.mp (consecutivePages_nodup page (count + 1))
    obtain ⟨l', lists', perm⟩ := ih next (fun p mem inside => by
        rcases List.mem_cons.mp inside with rfl | older
        · exact distinct.1 mem
        · exact absent p (List.mem_cons_of_mem _ mem) older)
      (fun p mem => pointer p (List.mem_cons_of_mem _ mem)) done
    exact ⟨l', lists', perm.trans List.perm_middle⟩

/-- The free list of an allocator built over disjoint ranges has their pages. -/
theorem Built.lists (built : Built ranges a) (apart : ranges.Pairwise PageRange.Apart) :
    ∃ l, a.Lists l ∧ l.Perm (ranges.flatMap PageRange.pages) := by
  induction built with
  | start head => exact ⟨[], ⟨head, by simp⟩, List.Perm.refl _⟩
  | limits start end_ highMemStart _ ih =>
    obtain ⟨l, ⟨list, pages⟩, perm⟩ := ih apart
    exact ⟨l, ⟨list, pages⟩, perm⟩
  | range r built done ih =>
    obtain ⟨apartFirst, apart⟩ := List.pairwise_cons.mp apart
    obtain ⟨l, lists, perm⟩ := ih apart
    obtain ⟨-, done⟩ := Option.ite_none_right_eq_some.mp done
    obtain ⟨l', lists', perm'⟩ := lists.freePages (fun p mem inside => by
        obtain ⟨s, older, within⟩ := List.mem_flatMap.mp (perm.mem_iff.mp inside)
        exact PageRange.pages_disjoint (apartFirst s older) mem within)
      (fun p mem => PageRange.mem_pages_lt mem) done
    refine ⟨l', lists', perm'.trans ?_⟩
    exact perm.append_left _

theorem flatMap_pages_nodup (apart : ranges.Pairwise PageRange.Apart) :
    (ranges.flatMap PageRange.pages).Nodup := by
  induction ranges with
  | nil => exact List.nodup_nil
  | cons r ranges ih =>
    obtain ⟨apartFirst, apart⟩ := List.pairwise_cons.mp apart
    refine List.nodup_append'.mpr ⟨consecutivePages_nodup .., ih apart, ?_⟩
    intro p mem inside
    obtain ⟨s, older, within⟩ := List.mem_flatMap.mp inside
    exact PageRange.pages_disjoint (apartFirst s older) mem within

theorem pages_lt (ranges : List PageRange) :
    ∀ page ∈ ranges.flatMap PageRange.pages, page < 2 ^ 64 := by
  intro page mem
  obtain ⟨r, -, inside⟩ := List.mem_flatMap.mp mem
  exact PageRange.mem_pages_lt inside

end LinkedPages

/-! ## Runs -/

namespace PageUse

/-- The free pages and those handed out are the given ones. -/
structure Conserves (pages : List Nat) (u : PageUse) (l : List Nat) : Prop where
  lists : u.allocator.Lists l
  all : (l ++ u.outstanding).Perm pages

theorem Conserves.absent {pages l : List Nat} {u : PageUse} (distinct : pages.Nodup)
    (conserves : Conserves pages u l) (out : page ∈ u.outstanding) : page ∉ l := by
  obtain ⟨-, -, apart⟩ := List.nodup_append'.mp (conserves.all.nodup_iff.mpr distinct)
  exact fun mem => apart mem out

/-- The free pages after a call. -/
def freeAfter (l : List Nat) : PageCall → List Nat
  | .alloc => l.tail
  | .free page => page :: l
  | .write _ _ _ => l

theorem Conserves.step {pages l : List Nat} {u t : PageUse} {call : PageCall}
    (distinct : pages.Nodup) (pointers : ∀ page ∈ pages, page < 2 ^ 64)
    (conserves : Conserves pages u l) (owned : u.Owned call) (done : u.step call = some t) :
    Conserves pages t (freeAfter l call) := by
  cases call with
  | alloc =>
    obtain ⟨⟨page, b⟩, taken, rfl⟩ := Option.map_eq_some_iff.mp done
    obtain ⟨free, -, -⟩ := List.nodup_append'.mp (conserves.all.nodup_iff.mpr distinct)
    obtain ⟨rest, rfl, lists⟩ := conserves.lists.alloc free taken
    exact ⟨lists, List.perm_middle.trans conserves.all⟩
  | free page =>
    obtain ⟨b, freed, rfl⟩ := Option.map_eq_some_iff.mp done
    have out : page ∈ u.outstanding := owned
    have pointer := pointers page (conserves.all.mem_iff.mp (List.mem_append_right _ out))
    refine ⟨conserves.lists.free (conserves.absent distinct out) pointer freed, ?_⟩
    refine List.Perm.trans ?_ conserves.all
    have back := (List.perm_cons_erase out).append_left l
    exact (List.perm_middle.symm.trans back.symm)
  | write page index word =>
    cases done
    have out : page ∈ u.outstanding := owned
    refine ⟨⟨?_, conserves.lists.pages⟩, conserves.all⟩
    refine conserves.lists.list.congr fun next mem => ?_
    have ne : next ≠ page := by
      rintro rfl
      exact conserves.absent distinct out mem
    exact if_neg fun same => ne same.1

/-- In every run the pointers in the free pages lead, without repetition, through pages that are not
handed out; these and the pages handed out are always the pages of the initial ranges; and `alloc`
returns a whole page of one of these ranges. -/
theorem pages_conserved (ranges : List PageRange) (apart : ranges.Pairwise PageRange.Apart)
    (u : PageUse) (reached : Reached ranges u) :
    ∃ l, FreeListAt u.allocator.memory u.allocator.lowMemFreeListHead l ∧ l.Nodup ∧
      u.outstanding.Nodup ∧ (∀ page ∈ l, page ∉ u.outstanding) ∧
      (∀ page, page ∈ l ∨ page ∈ u.outstanding ↔ page ∈ ranges.flatMap PageRange.pages) ∧
      ∀ page b, u.allocator.alloc = some (page, b) → page ∉ u.outstanding ∧ page4K ∣ page ∧
        ∃ r ∈ ranges, r.start ≤ page ∧ page + page4K ≤ r.end := by
  have distinct := LinkedPages.flatMap_pages_nodup apart
  have pointers := LinkedPages.pages_lt ranges
  have invariant : ∀ u, Reached ranges u → ∃ l, Conserves (ranges.flatMap PageRange.pages) u l := by
    refine Reachable.invariant ?_ ?_
    · rintro u ⟨built, none⟩
      obtain ⟨l, lists, perm⟩ := built.lists apart
      refine ⟨l, lists, ?_⟩
      rw [none, List.append_nil]
      exact perm
    · rintro u call t ⟨l, conserves⟩ owned done
      exact ⟨_, conserves.step distinct pointers owned done⟩
  obtain ⟨l, conserves⟩ := invariant u reached
  obtain ⟨free, out, disjoint⟩ := List.nodup_append'.mp (conserves.all.nodup_iff.mpr distinct)
  refine ⟨l, conserves.lists.list, free, out, fun page mem => disjoint mem, ?_, ?_⟩
  · intro page
    rw [← conserves.all.mem_iff, List.mem_append]
  · intro page b taken
    obtain ⟨rest, rfl, -⟩ := conserves.lists.alloc free taken
    have here : page ∈ page :: rest := List.mem_cons_self
    obtain ⟨r, given, inside⟩ := List.mem_flatMap.mp
      (conserves.all.mem_iff.mp (List.mem_append_left _ here))
    obtain ⟨aligned, above, below⟩ := PageRange.mem_pages inside
    exact ⟨disjoint here, aligned, r, given, above, below⟩

/-- A range with two whole pages. -/
def twoPages : PageRange := ⟨0x1001, 0x4000, by decide⟩

/-- The allocator before `init_range`. -/
def emptyPages : LinkedPages := ⟨fun _ _ => 0#64, none, 0, 0x1000, 0x4000, 0, 0⟩

/-- Both pages are taken, and the first one taken is overwritten and returned. -/
theorem pages_conserved_twoPages :
    ∃ (u : PageUse) (l : List Nat), u.outstanding = [0x2000] ∧
      FreeListAt u.allocator.memory u.allocator.lowMemFreeListHead l ∧
      ∀ page, page ∈ l ∨ page ∈ u.outstanding ↔ page ∈ [twoPages].flatMap PageRange.pages := by
  have observed : ((LinkedPages.initRange twoPages emptyPages).bind fun a =>
      runCalls step (fun u c => decide (u.Owned c)) ⟨a, []⟩
        [.alloc, .alloc, .write 0x3000 0 5#64, .free 0x3000]).map outstanding = some [0x2000] := by
    decide +kernel
  obtain ⟨u, ran, out⟩ := Option.map_eq_some_iff.mp observed
  obtain ⟨a, built, ran⟩ := bind_eq_some.mp ran
  have reached : Reached [twoPages] u :=
    Reachable.of_runCalls (f := step) (fun u c => decide (u.Owned c))
      (fun u c allowed => of_decide_eq_true allowed) _
      (.start ⟨.range twoPages (.start rfl) built, rfl⟩) ran
  obtain ⟨l, list, -, -, -, all, -⟩ :=
    pages_conserved [twoPages] (List.pairwise_singleton _ _) u reached
  exact ⟨u, l, out, list, all⟩

end PageUse

/-! ## The allocator over the list of free pages -/

/-- Memory by physical addresses. -/
def PhysicalMemory.atPhysical (memory : PhysicalMemory) : PhysicalMemory :=
  fun address index => memory (physical2virtual address) index

theorem physical2virtual_eq_iff (above : kernelBase ≤ page) (address : Nat) :
    physical2virtual address = page ↔ address = virtual2physical page := by
  unfold physical2virtual virtual2physical
  omega

theorem atPhysical_fill (memory : PhysicalMemory) (above : kernelBase ≤ page) (word : BitVec 64) :
    (memory.fill page word).atPhysical = memory.atPhysical.fill (virtual2physical page) word := by
  funext address index
  simp only [PhysicalMemory.atPhysical, PhysicalMemory.fill, physical2virtual_eq_iff above]

theorem atPhysical_write (memory : PhysicalMemory) (above : kernelBase ≤ page) (index : Nat)
    (word : BitVec 64) : (memory.write page index word).atPhysical =
      memory.atPhysical.write (virtual2physical page) index word := by
  funext address i
  simp only [PhysicalMemory.atPhysical, PhysicalMemory.write, physical2virtual_eq_iff above]

namespace LinkedPages
variable {a : LinkedPages} {l : List Nat}

/-- The allocator over the list that the pointers lead through, and the physical memory. -/
def view (l : List Nat) (a : LinkedPages) : Physical where
  memory := a.memory.atPhysical
  allocator := ⟨l, a.highMemStart, a.start, a.end, a.freeCount, a.usedCount⟩

theorem alloc_view (lists : a.Lists l) (above : ∀ page ∈ l, kernelBase ≤ page) :
    PhysicalPageAllocator.alloc (a.view l) =
      a.alloc.map fun result => (result.1, result.2.view l.tail) := by
  cases l with
  | nil =>
    have head : a.lowMemFreeListHead = none := lists.list
    simp only [PhysicalPageAllocator.alloc, view, alloc, head]
    rfl
  | cons page rest =>
    have inKernel := above page List.mem_cons_self
    simp only [PhysicalPageAllocator.alloc, view, alloc, lists.list.1, some_bind, Option.map_some,
      List.tail_cons, atPhysical_fill _ inKernel]

theorem free_view (lists : a.Lists l) (above : kernelBase ≤ page) :
    PhysicalPageAllocator.free page (a.view l) = (a.free page).map (view (page :: l)) := by
  have next : PhysicalPageAllocator.nextPointer l = pointerWord a.lowMemFreeListHead := by
    cases l with
    | nil => rw [show a.lowMemFreeListHead = none from lists.list]; rfl
    | cons first rest => rw [lists.list.1]; rfl
  simp only [PhysicalPageAllocator.free, view, free, next]
  split
  · rfl
  · split
    · simp only [Option.map_some, view, atPhysical_write _ above, atPhysical_fill _ above]
    · rfl

end LinkedPages

/-- The allocator over the list, and the pages that are handed out. -/
structure PhysicalUse where
  physical : Physical
  outstanding : List Nat

def PhysicalUse.step (v : PhysicalUse) : PageCall → Option PhysicalUse
  | .alloc => (PhysicalPageAllocator.alloc v.physical).map fun result =>
      ⟨result.2, result.1 :: v.outstanding⟩
  | .free page => (PhysicalPageAllocator.free page v.physical).map fun p =>
      ⟨p, v.outstanding.erase page⟩
  | .write page index word =>
    let memory := v.physical.memory.write (virtual2physical page) index word
    some { v with physical := { v.physical with memory := memory } }

namespace PageUse
variable {pages l : List Nat} {u t : PageUse} {call : PageCall}

def view (l : List Nat) (u : PageUse) : PhysicalUse := ⟨u.allocator.view l, u.outstanding⟩

/-- One call does the same to both, or is a panic in both. -/
theorem Conserves.step_view (conserves : Conserves pages u l)
    (above : ∀ page ∈ pages, kernelBase ≤ page) (owned : u.Owned call) :
    (u.view l).step call = (u.step call).map (view (freeAfter l call)) := by
  have held : ∀ page ∈ u.outstanding, kernelBase ≤ page := fun page out =>
    above page (conserves.all.mem_iff.mp (List.mem_append_right _ out))
  cases call with
  | alloc =>
    have free : ∀ page ∈ l, kernelBase ≤ page := fun page mem =>
      above page (conserves.all.mem_iff.mp (List.mem_append_left _ mem))
    simp only [PhysicalUse.step, view, LinkedPages.alloc_view conserves.lists free,
      PageUse.step, Option.map_map]
    rfl
  | free page =>
    simp only [PhysicalUse.step, view, LinkedPages.free_view conserves.lists (held page owned),
      PageUse.step, Option.map_map]
    rfl
  | write page index word =>
    simp only [PhysicalUse.step, view, LinkedPages.view, PageUse.step, Option.map_some,
      atPhysical_write _ (held page owned)]
    rfl

/-- A run of the pointers is one of the list. -/
theorem Conserves.run_view (distinct : pages.Nodup) (pointers : ∀ page ∈ pages, page < 2 ^ 64)
    (above : ∀ page ∈ pages, kernelBase ≤ page) {calls : List PageCall}
    (conserves : Conserves pages u l)
    (run : runCalls PageUse.step (fun u c => decide (u.Owned c)) u calls = some t) :
    ∃ l', Conserves pages t l' ∧
      runCalls PhysicalUse.step (fun _ _ => true) (u.view l) calls = some (t.view l') := by
  induction calls generalizing u l with
  | nil =>
    cases run
    exact ⟨l, conserves, rfl⟩
  | cons call calls ih =>
    simp only [runCalls] at run
    split at run
    · rename_i owned
      split at run
      · rename_i next taken
        have owned := of_decide_eq_true owned
        obtain ⟨l', conserves', same⟩ :=
          ih (conserves.step distinct pointers owned taken) run
        refine ⟨l', conserves', ?_⟩
        rw [runCalls, if_pos rfl, conserves.step_view above owned, taken]
        exact same
      · cases run
    · cases run

/-- The pointers in the free pages refine the list: what is built over disjoint ranges of the
kernel's mapping has a list of free pages, from which the allocator over the list does in every run
what the pointers do, with the same pages handed out and the same memory; and the call after the run
is a panic of both or of neither. -/
theorem run_refines {ranges : List PageRange} (apart : ranges.Pairwise PageRange.Apart)
    (above : ∀ r ∈ ranges, kernelBase ≤ r.start) {a : LinkedPages}
    (built : LinkedPages.Built ranges a) (calls : List PageCall) {t : PageUse}
    (run : runCalls step (fun u c => decide (u.Owned c)) ⟨a, []⟩ calls = some t) :
    ∃ l l', a.Lists l ∧ t.allocator.Lists l' ∧
      runCalls PhysicalUse.step (fun _ _ => true) ⟨a.view l, []⟩ calls = some (t.view l') ∧
      ∀ call, t.Owned call → (((t.view l').step call).isSome ↔ (t.step call).isSome) := by
  have pagesAbove : ∀ page ∈ ranges.flatMap PageRange.pages, kernelBase ≤ page := by
    intro page mem
    obtain ⟨r, given, inside⟩ := List.mem_flatMap.mp mem
    exact (above r given).trans (PageRange.mem_pages inside).2.1
  obtain ⟨l, lists, perm⟩ := built.lists apart
  have start : Conserves (ranges.flatMap PageRange.pages) ⟨a, []⟩ l :=
    ⟨lists, by rw [List.append_nil]; exact perm⟩
  obtain ⟨l', conserves, same⟩ := start.run_view (LinkedPages.flatMap_pages_nodup apart)
    (LinkedPages.pages_lt ranges) pagesAbove run
  refine ⟨l, l', lists, conserves.lists, same, fun call owned => ?_⟩
  rw [conserves.step_view pagesAbove owned, Option.isSome_map]

/-- Two whole pages of the kernel's mapping. -/
def kernelPages : PageRange := ⟨kernelBase + 0x1001, kernelBase + 0x4000, by decide⟩

/-- Both pages are taken, and the first one taken is overwritten and returned. -/
theorem run_refines_kernelPages :
    ∃ (a : LinkedPages) (t : PageUse) (l l' : List Nat),
      t.outstanding = [kernelBase + 0x2000] ∧ a.Lists l ∧ t.allocator.Lists l' ∧
      runCalls PhysicalUse.step (fun _ _ => true) ⟨a.view l, []⟩ [.alloc, .alloc,
        .write (kernelBase + 0x3000) 0 5#64, .free (kernelBase + 0x3000)] = some (t.view l') := by
  have observed : ((LinkedPages.initRange kernelPages ⟨fun _ _ => 0#64, none, 0,
      kernelBase, kernelEnd, 0, 0⟩).bind fun a =>
      runCalls step (fun u c => decide (u.Owned c)) ⟨a, []⟩ [.alloc, .alloc,
        .write (kernelBase + 0x3000) 0 5#64, .free (kernelBase + 0x3000)]).map outstanding =
      some [kernelBase + 0x2000] := by
    decide +kernel
  obtain ⟨t, ran, out⟩ := Option.map_eq_some_iff.mp observed
  obtain ⟨a, built, ran⟩ := bind_eq_some.mp ran
  have inKernel : ∀ r ∈ [kernelPages], kernelBase ≤ r.start := by decide
  obtain ⟨l, l', lists, lists', same, -⟩ := run_refines (List.pairwise_singleton _ _) inKernel
    (.range kernelPages (.start rfl) built) _ ran
  exact ⟨a, t, l, l', out, lists, lists', same⟩

end PageUse

end Emerald.MemoryManagement
