
import Emerald.MemoryManagement.Proofs.DiscoveredPages

/-!
# The memory map and the free list

For which memory maps `PhysicalPageAllocator::new` finds exactly the memory that it should find, and
`free` takes each of the pages back.
-/

namespace Emerald.MemoryManagement
variable {u : PageUse}

/-! ## What should be found -/

/-- The region holds a physical address. -/
def MemoryMap.Holds (m : MemoryMap) (address : Nat) : Prop := m.baseAddr ≤ address ∧ address < m.end

/-- The regions have no address in common. -/
def MemoryMap.Disjoint (m n : MemoryMap) : Prop := ∀ address, m.Holds address → ¬ n.Holds address

/-- Of the regions with pages the last one in the map is the highest. -/
def LinkedPages.HighestLast (kernelEnd : Nat) (maps : List MemoryMap) : Prop :=
  ∀ last ∈ (withPages kernelEnd maps).getLast?, ∀ m ∈ withPages kernelEnd maps,
    m.baseAddr ≤ last.baseAddr

namespace BootInfo
variable (info : BootInfo)

/-- The end of the kernel and of the multiboot data after it. -/
def dataEnd : Nat := max info.kernelPagesEnd info.multibootEnd

/-- A whole page of an available region, after the kernel and below `KERNEL_END`, by its virtual
address. -/
def WholePage (page : Nat) : Prop :=
  ∃ m ∈ info.memoryMaps, m.memType = .available ∧ ∃ address, page = physical2virtual address ∧
    page4K ∣ address ∧ info.dataEnd ≤ address ∧ address + page4K ≤ virtual2physical kernelEnd ∧
    m.baseAddr ≤ address ∧ address + page4K ≤ m.end

/-- `new` returns, the free list has exactly the whole pages, without repetition, and a page that is
handed out later can be returned with `free`. -/
def Discovered (checked : Bool) (memory : PhysicalMemory) : Prop :=
  ∃ a l, LinkedPages.new checked info memory = some a ∧
    FreeListAt a.memory a.lowMemFreeListHead l ∧ l.Nodup ∧
    (∀ page, page ∈ l ↔ info.WholePage page) ∧
    ∀ u, Reachable (fun u call t => u.step call = some t) PageUse.Owned (· = ⟨a, []⟩) u →
      ∀ page ∈ u.outstanding, ∃ b, u.allocator.free page = some b

/-- When the memory is discovered: the multiboot data does not end far after the kernel; the regions
that `new` looks at are fine; and of the regions with pages the last one in the map is the
highest. -/
structure Discoverable (info : BootInfo) (checked : Bool) : Prop where
  near : info.multibootEnd < info.kernelPagesEnd + page4K * 5
  fine : ∀ m ∈ LinkedPages.looksAt info.dataEnd info.memoryMaps,
    LinkedPages.Fine checked info.dataEnd m
  highestLast : LinkedPages.HighestLast info.dataEnd info.memoryMaps

/-! ## The end of the kernel -/

theorem isKernelEnd_dataEnd : IsKernelEnd info.dataEnd := by
  have kernel := info.kernelMapped
  have multiboot := info.multibootMapped
  unfold dataEnd kernelPagesEnd multibootEnd
  unfold virtual2physical alignUp alignDown
  simp only [kernelLink, kernelEnd, kernelBase, kernelMappedSize, extendedOffset]
    at kernel multiboot ⊢
  constructor
  all_goals simp only [page4K, extendedOffset, kernelMappedSize]
  all_goals omega

theorem physicalKernelEnd_eq : info.physicalKernelEnd =
    if info.multibootEnd < info.kernelPagesEnd + page4K * 5 then some info.dataEnd else none := by
  unfold physicalKernelEnd dataEnd
  have pos : 0 < page4K * 5 := by decide
  by_cases after : info.kernelPagesEnd < info.multibootEnd
  · rw [if_pos after, Nat.max_eq_right (Nat.le_of_lt after)]
    by_cases near : info.multibootEnd < info.kernelPagesEnd + page4K * 5
    · rw [if_pos near, if_pos (by omega)]
    · rw [if_neg near, if_neg (by omega)]
  · rw [if_neg after, Nat.max_eq_left (Nat.le_of_not_lt after), if_pos (by omega)]

theorem new_eq (checked : Bool) (info : BootInfo) (memory : PhysicalMemory)
    (near : info.multibootEnd < info.kernelPagesEnd + page4K * 5) :
    LinkedPages.new checked info memory =
      LinkedPages.visitRegions checked info.dataEnd info.memoryMaps (.blank memory) := by
  unfold LinkedPages.new
  rw [physicalKernelEnd_eq, if_pos near]
  rfl

theorem new_far (checked : Bool) (info : BootInfo) (memory : PhysicalMemory)
    (far : ¬ info.multibootEnd < info.kernelPagesEnd + page4K * 5) :
    LinkedPages.new checked info memory = none := by
  unfold LinkedPages.new
  rw [physicalKernelEnd_eq, if_neg far]
  rfl

end BootInfo

/-! ## Regions with pages -/

namespace MemoryMap
variable {kernelEnd page : Nat} {m n : MemoryMap}

theorem mem_range_pages_iff : page ∈ (m.range kernelEnd).pages ↔
    ∃ address, page = physical2virtual address ∧ page4K ∣ address ∧ kernelEnd ≤ address ∧
      address + page4K ≤ kernelMappedSize ∧ m.baseAddr ≤ address ∧ address + page4K ≤ m.end := by
  have base : page4K ∣ kernelBase := by decide
  have start : m.baseAddr ≤ alignUp m.baseAddr page4K := le_alignUp _ (by decide)
  have ends : alignDown m.end page4K ≤ m.end := alignDown_le ..
  constructor
  · intro mem
    obtain ⟨aligned, above, below⟩ := PageRange.mem_pages mem
    unfold range firstPage pagesEnd physical2virtual at above below
    simp only at above below
    refine ⟨page - kernelBase, ?_, Nat.dvd_sub aligned base, ?_⟩
    · unfold physical2virtual
      omega
    · omega
  · rintro ⟨address, rfl, aligned, after, low, above, below⟩
    have first := alignUp_le (by decide) aligned above
    have last : address + page4K ≤ alignDown m.end page4K :=
      le_alignDown (dvd_add aligned (dvd_refl _)) below
    apply PageRange.mem_pages_of_inside (dvd_add aligned base)
    · unfold range firstPage physical2virtual
      simp only
      omega
    · unfold range pagesEnd physical2virtual
      simp only
      omega

theorem baseAddr_le_firstPage (kernelEnd : Nat) (m : MemoryMap) :
    m.baseAddr ≤ m.firstPage kernelEnd :=
  (le_alignUp _ (by decide)).trans (le_max_right ..)

theorem HasPages.nonempty (pages : m.HasPages kernelEnd) : m.baseAddr < m.end :=
  (m.baseAddr_le_firstPage kernelEnd).trans_lt
    (pages.2.trans_le (LinkedPages.pagesEnd_le_end m))

theorem hasPages_of_mem (available : m.memType = .available)
    (mem : page ∈ (m.range kernelEnd).pages) : m.HasPages kernelEnd := by
  obtain ⟨aligned, above, below⟩ := PageRange.mem_pages mem
  have whole : 0 < page4K := by decide
  refine ⟨available, LinkedPages.physical2virtual_lt_iff.mp ?_⟩
  show (m.range kernelEnd).start < (m.range kernelEnd).end
  omega

/-- The first page of a region with pages. -/
theorem HasPages.first_mem (isEnd : IsKernelEnd kernelEnd) (pages : m.HasPages kernelEnd) :
    physical2virtual (m.firstPage kernelEnd) ∈ (m.range kernelEnd).pages := by
  have aligned := LinkedPages.dvd_firstPage isEnd m
  refine PageRange.mem_pages_of_inside (LinkedPages.page4K_dvd_physical2virtual aligned) le_rfl ?_
  obtain ⟨i, first⟩ := aligned
  obtain ⟨j, last⟩ := LinkedPages.dvd_pagesEnd m
  have some := pages.2
  show physical2virtual (m.firstPage kernelEnd) + page4K ≤ physical2virtual m.pagesEnd
  unfold physical2virtual
  simp only [page4K] at first last ⊢
  omega

theorem Disjoint.symm (disjoint : m.Disjoint n) : n.Disjoint m :=
  fun address inside inside' => disjoint address inside' inside

instance : Std.Symm Disjoint := ⟨fun _ _ => Disjoint.symm⟩

/-- Regions with pages lie one after the other. -/
theorem Disjoint.before_or_after (disjoint : m.Disjoint n) (first : m.HasPages kernelEnd)
    (second : n.HasPages kernelEnd) : m.end ≤ n.baseAddr ∨ n.end ≤ m.baseAddr := by
  have some := first.nonempty
  have some' := second.nonempty
  have apart := disjoint (max m.baseAddr n.baseAddr)
  unfold Holds at apart
  omega

theorem Disjoint.range_apart (disjoint : m.Disjoint n) (first : m.HasPages kernelEnd)
    (second : n.HasPages kernelEnd) : (m.range kernelEnd).Apart (n.range kernelEnd) := by
  have order := disjoint.before_or_after first second
  have start := m.baseAddr_le_firstPage kernelEnd
  have start' := n.baseAddr_le_firstPage kernelEnd
  have ends := LinkedPages.pagesEnd_le_end m
  have ends' := LinkedPages.pagesEnd_le_end n
  have pages := first.2
  have pages' := second.2
  unfold PageRange.Apart Emerald.Apart PageRange.size range physical2virtual
  simp only
  omega

theorem not_disjoint_self (pages : m.HasPages kernelEnd) : ¬ m.Disjoint m := fun disjoint =>
  disjoint m.baseAddr ⟨Nat.le_refl _, pages.nonempty⟩ ⟨Nat.le_refl _, pages.nonempty⟩

end MemoryMap

namespace LinkedPages
variable {kernelEnd : Nat} {maps : List MemoryMap} {a : LinkedPages} {l : List Nat} {m : MemoryMap}

theorem mem_withPages :
    m ∈ withPages kernelEnd maps ↔ m ∈ maps ∧ m.HasPages kernelEnd := by
  unfold withPages
  rw [List.mem_filter, decide_eq_true_eq]

/-- The free list has the pages of the regions that the loop has looked at. -/
theorem Filled.lists (filled : Filled kernelEnd maps a)
    (disjoint : maps.Pairwise MemoryMap.Disjoint) :
    ∃ l, a.Lists l ∧ l.Nodup ∧
      ∀ page, page ∈ l ↔ ∃ m ∈ withPages kernelEnd maps, page ∈ (m.range kernelEnd).pages := by
  have apart : ((withPages kernelEnd maps).reverse.map (MemoryMap.range kernelEnd)).Pairwise
      PageRange.Apart := by
    rw [List.pairwise_map, List.pairwise_reverse]
    refine (disjoint.filter _).imp_of_mem fun first second apart => ?_
    exact apart.symm.range_apart (mem_withPages.mp second).2 (mem_withPages.mp first).2
  obtain ⟨l, lists, perm⟩ := filled.initialised.built.lists apart
  refine ⟨l, lists, perm.nodup_iff.mpr (flatMap_pages_nodup apart), fun page => ?_⟩
  rw [perm.mem_iff, List.mem_flatMap]
  constructor
  · rintro ⟨r, mem, inside⟩
    obtain ⟨m, pages, rfl⟩ := List.mem_map.mp mem
    exact ⟨m, List.mem_reverse.mp pages, inside⟩
  · rintro ⟨m, pages, inside⟩
    exact ⟨_, List.mem_map_of_mem (List.mem_reverse.mpr pages), inside⟩

/-! ## Returning pages -/

/-- The states that the allocator is in later. -/
abbrev Later (a : LinkedPages) : PageUse → Prop :=
  Reachable (fun u call t => u.step call = some t) PageUse.Owned (· = ⟨a, []⟩)

theorem step_sameLimits {t : PageUse} {call : PageCall} (done : u.step call = some t) :
    SameLimits u.allocator t.allocator := by
  cases call with
  | alloc =>
    obtain ⟨⟨page, b⟩, taken, rfl⟩ := Option.map_eq_some_iff.mp done
    exact alloc_sameLimits taken
  | free page =>
    obtain ⟨b, freed, rfl⟩ := Option.map_eq_some_iff.mp done
    exact free_sameLimits freed
  | write page index word =>
    cases done
    exact ⟨rfl, rfl, rfl⟩

theorem Later.sameLimits (later : Later a u) : SameLimits a u.allocator := by
  refine Reachable.invariant (P := fun u => SameLimits a u.allocator) ?_ ?_ u later
  · rintro u rfl
    exact ⟨rfl, rfl, rfl⟩
  · intro u call t same _ done
    exact same.trans (step_sameLimits done)

theorem Lists.later (lists : a.Lists l) (distinct : l.Nodup) (later : Later a u) :
    ∃ l', PageUse.Conserves l u l' := by
  refine Reachable.invariant (P := fun u => ∃ l', PageUse.Conserves l u l') ?_ ?_ u later
  · rintro u rfl
    refine ⟨l, lists, ?_⟩
    rw [List.append_nil]
  · rintro u call t ⟨l', conserves⟩ owned done
    exact ⟨_, conserves.step distinct (fun page mem => (lists.pages page mem).pointer) owned done⟩

/-- All pages are handed out. -/
theorem alloc_all {pages : List Nat} (distinct : pages.Nodup)
    (conserves : PageUse.Conserves pages u l) (later : Later a u) :
    ∃ t, Later a t ∧ PageUse.Conserves pages t [] := by
  induction l generalizing u with
  | nil => exact ⟨u, later, conserves⟩
  | cons page rest ih =>
    have head := conserves.lists.list.1
    have taken : ∃ b, u.allocator.alloc = some (page, b) := by
      unfold LinkedPages.alloc
      rw [head]
      exact ⟨_, rfl⟩
    obtain ⟨b, taken⟩ := taken
    have step : u.step .alloc = some ⟨b, page :: u.outstanding⟩ := by
      rw [PageUse.step, taken]
      rfl
    obtain ⟨free, -, -⟩ := List.nodup_append'.mp (conserves.all.nodup_iff.mpr distinct)
    obtain ⟨rest', same, lists⟩ := conserves.lists.alloc free taken
    cases same
    exact ih ⟨lists, List.perm_middle.trans conserves.all⟩ (.call .alloc later trivial step)

/-- The pages can be returned later exactly if `free` takes each of them now. -/
theorem Lists.returned_iff (lists : a.Lists l) (distinct : l.Nodup) :
    (∀ u, Later a u → ∀ page ∈ u.outstanding, ∃ b, u.allocator.free page = some b) ↔
      ∀ page ∈ l, a.Takes page := by
  constructor
  · intro returned page mem
    have start : PageUse.Conserves l ⟨a, []⟩ l := ⟨lists, by rw [List.append_nil]⟩
    obtain ⟨t, later, conserves⟩ := alloc_all distinct start (.start rfl)
    have out : page ∈ t.outstanding := conserves.all.mem_iff.mpr mem
    exact (later.sameLimits.takes_iff page).mp (free_returns_iff.mp (returned t later page out))
  · intro takes u later page out
    obtain ⟨l', conserves⟩ := lists.later distinct later
    have mem : page ∈ l := conserves.all.mem_iff.mp (List.mem_append_right _ out)
    exact free_returns_iff.mpr ((later.sameLimits.takes_iff page).mpr (takes page mem))

/-- `free` takes the pages that are below `end`. -/
theorem Filled.takes_iff (filled : Filled kernelEnd maps a)
    (limits : a.highMemStart = 0 ∨ a.highMemStart = MemoryManagement.kernelEnd)
    {page : Nat} (mem : page ∈ (m.range kernelEnd).pages) : a.Takes page ↔ page < a.end := by
  constructor
  · exact Takes.below
  · intro below
    obtain ⟨aligned, -, -⟩ := PageRange.mem_pages mem
    obtain ⟨address, rfl, -, after, low, -⟩ := MemoryMap.mem_range_pages_iff.mp mem
    have start := filled.start_le
    have base : 0 < kernelBase := by decide
    have whole : 0 < page4K := by decide
    refine ⟨?_, aligned, ?_, below, ?_⟩
    · unfold physical2virtual
      omega
    · unfold physical2virtual at start ⊢
      omega
    · rcases limits with none | set
      · exact .inl none
      · right
        rw [set, MemoryManagement.kernelEnd, physical2virtual]
        omega

/-! ## The order of the regions -/

/-- The loop goes to the end of the map or to a region that stops it. -/
theorem looksAt_split (kernelEnd : Nat) (maps : List MemoryMap) :
    ∃ rest, maps = looksAt kernelEnd maps ++ rest ∧
      (rest = [] ∨ ∃ m ∈ looksAt kernelEnd maps, m.Stops kernelEnd) := by
  induction maps with
  | nil => exact ⟨[], rfl, .inl rfl⟩
  | cons m maps ih =>
    unfold looksAt
    by_cases stops : m.Stops kernelEnd
    · rw [if_pos stops]
      exact ⟨maps, rfl, .inr ⟨m, List.mem_singleton.mpr rfl, stops⟩⟩
    · rw [if_neg stops]
      obtain ⟨rest, split, ends⟩ := ih
      refine ⟨rest, ?_, ?_⟩
      · rw [List.cons_append, ← split]
      · rcases ends with none | ⟨n, mem, stops⟩
        · exact .inl none
        · exact .inr ⟨n, List.mem_cons_of_mem _ mem, stops⟩

/-- A region after one that reaches `KERNEL_END` has no pages. -/
theorem not_hasPages_of_after {n : MemoryMap} (reaches : kernelMappedSize ≤ m.end)
    (after : m.end ≤ n.baseAddr) : ¬ n.HasPages kernelEnd := by
  rintro ⟨-, some⟩
  have start := n.baseAddr_le_firstPage kernelEnd
  have upto : n.pagesEnd ≤ kernelMappedSize := min_le_right ..
  omega

/-- With the highest region last no region with pages is left out. -/
theorem HighestLast.withPages_looksAt (highest : HighestLast kernelEnd maps)
    (disjoint : maps.Pairwise MemoryMap.Disjoint) :
    withPages kernelEnd (looksAt kernelEnd maps) = withPages kernelEnd maps := by
  obtain ⟨rest, split, ends⟩ := looksAt_split kernelEnd maps
  generalize looksAt kernelEnd maps = looked at split ends ⊢
  subst split
  rw [withPages_append]
  suffices none : withPages kernelEnd rest = [] by rw [none, List.append_nil]
  rcases ends with rfl | ⟨m, looked, stops⟩
  · rfl
  · by_contra some
    obtain ⟨last, isLast⟩ := Option.isSome_iff_exists.mp (List.getLast?_isSome.mpr some)
    have left := mem_withPages.mp (List.mem_of_getLast? isLast)
    have order : m.baseAddr ≤ last.baseAddr := by
      refine highest last ?_ m (mem_withPages.mpr ⟨List.mem_append_left _ looked, stops.1⟩)
      rw [withPages_append, List.getLast?_append, isLast]
      rfl
    have apart : m.Disjoint last := (List.pairwise_append.mp disjoint).2.2 m looked last left.1
    have nonempty := left.2.nonempty
    rcases apart.before_or_after stops.1 left.2 with after | before
    · exact not_hasPages_of_after stops.2 after left.2
    · omega

/-- With the highest region last the pages of all regions are below the end of the last one. -/
theorem HighestLast.below_end (highest : HighestLast kernelEnd maps)
    (disjoint : maps.Pairwise MemoryMap.Disjoint) (filled : Filled kernelEnd maps a)
    (pages : m ∈ withPages kernelEnd maps) {page : Nat}
    (mem : page ∈ (m.range kernelEnd).pages) : page < a.end := by
  obtain ⟨last, isLast⟩ := Option.isSome_iff_exists.mp
    (List.getLast?_isSome.mpr (List.ne_nil_of_mem pages))
  have lastPages := mem_withPages.mp (List.mem_of_getLast? isLast)
  have mPages := mem_withPages.mp pages
  have order := highest last isLast m pages
  have upto := (PageRange.mem_pages mem).2.2
  have whole : 0 < page4K := by decide
  have ends : page < physical2virtual m.pagesEnd := by
    show page < (m.range kernelEnd).end
    omega
  rw [filled.end last isLast]
  by_cases same : m = last
  · rw [← same]
    exact ends
  · have apart := disjoint.forall mPages.1 lastPages.1 same
    have nonempty := lastPages.2.nonempty
    have below : m.end ≤ last.baseAddr := by
      rcases apart.before_or_after mPages.2 lastPages.2 with before | after
      · exact before
      · omega
    have start := last.baseAddr_le_firstPage kernelEnd
    have end_ := pagesEnd_le_end m
    have some := lastPages.2.2
    unfold physical2virtual at ends ⊢
    omega

/-- If the pages of all regions are free and below `end`, the highest region is the last one. -/
theorem HighestLast.of_below_end (isEnd : IsKernelEnd kernelEnd)
    (disjoint : maps.Pairwise MemoryMap.Disjoint)
    (filled : Filled kernelEnd (looksAt kernelEnd maps) a)
    (found : ∀ m ∈ withPages kernelEnd maps, ∀ page ∈ (m.range kernelEnd).pages,
      (∃ n ∈ withPages kernelEnd (looksAt kernelEnd maps), page ∈ (n.range kernelEnd).pages) ∧
        page < a.end) : HighestLast kernelEnd maps := by
  intro last isLast m pages
  by_contra higher
  have lastMember := List.mem_of_getLast? isLast
  have lastPages := mem_withPages.mp lastMember
  have mPages := mem_withPages.mp pages
  obtain ⟨rest, split, -⟩ := looksAt_split kernelEnd maps
  generalize looksAt kernelEnd maps = looked at split filled found
  subst split
  -- the loop has looked at the last region, as its first page is on the list
  obtain ⟨⟨n, nMember, inside⟩, -⟩ := found last lastMember _ (lastPages.2.first_mem isEnd)
  have nPages := mem_withPages.mp nMember
  have same : n = last := by
    by_contra ne
    have apart := disjoint.forall (List.mem_append_left _ nPages.1) lastPages.1 ne
    exact PageRange.pages_disjoint (apart.range_apart nPages.2 lastPages.2) inside
      (lastPages.2.first_mem isEnd)
  subst same
  have none : withPages kernelEnd rest = [] := by
    by_contra some
    obtain ⟨other, isOther⟩ := Option.isSome_iff_exists.mp (List.getLast?_isSome.mpr some)
    rw [withPages_append, List.getLast?_append, isOther] at isLast
    cases isLast
    have left := mem_withPages.mp (List.mem_of_getLast? isOther)
    exact MemoryMap.not_disjoint_self nPages.2
      ((List.pairwise_append.mp disjoint).2.2 _ nPages.1 _ left.1)
  rw [withPages_append, none, List.append_nil] at isLast
  -- so the first page of a higher region is not below `end`
  obtain ⟨-, below⟩ := found m pages _ (mPages.2.first_mem isEnd)
  rw [filled.end n isLast, physical2virtual_lt_iff] at below
  have ne : m ≠ n := by
    rintro rfl
    exact higher le_rfl
  have apart := disjoint.forall mPages.1 lastPages.1 ne
  have nonempty := mPages.2.nonempty
  have start := m.baseAddr_le_firstPage kernelEnd
  have end_ := pagesEnd_le_end n
  rcases apart.before_or_after mPages.2 nPages.2 with before | after <;> omega

end LinkedPages

namespace BootInfo

theorem wholePage_iff (info : BootInfo) (page : Nat) : info.WholePage page ↔
    ∃ m ∈ LinkedPages.withPages info.dataEnd info.memoryMaps,
      page ∈ (m.range info.dataEnd).pages := by
  constructor
  · rintro ⟨m, mem, available, inside⟩
    have page := MemoryMap.mem_range_pages_iff.mpr inside
    exact ⟨m, LinkedPages.mem_withPages.mpr ⟨mem, MemoryMap.hasPages_of_mem available page⟩, page⟩
  · rintro ⟨m, pages, inside⟩
    obtain ⟨mem, available, -⟩ := LinkedPages.mem_withPages.mp pages
    exact ⟨m, mem, available, MemoryMap.mem_range_pages_iff.mp inside⟩

theorem wholePage_after {info : BootInfo} {page : Nat} (whole : info.WholePage page) :
    physical2virtual info.dataEnd ≤ page := by
  obtain ⟨m, -, -, address, rfl, -, after, -⟩ := whole
  exact Nat.add_le_add_right after _

variable {checked : Bool} {info : BootInfo} {memory : PhysicalMemory}

/-- A region that is not fine is the end of the discovery. -/
theorem not_discovered_of_not_fine (near : info.multibootEnd < info.kernelPagesEnd + page4K * 5)
    (bad : ¬ ∀ m ∈ LinkedPages.looksAt info.dataEnd info.memoryMaps,
      LinkedPages.Fine checked info.dataEnd m) : ¬ info.Discovered checked memory := by
  rintro ⟨a, l, new, list, -, all, -⟩
  rw [new_eq _ _ _ near] at new
  rcases (LinkedPages.filled_blank _ memory).visitRegions_not_fine info.isKernelEnd_dataEnd rfl bad
    with panics | ⟨b, done, low⟩
  · cases panics.symm.trans new
  · cases done.symm.trans new
    obtain ⟨page, mem, below⟩ := low l list
    exact Nat.not_lt_of_le (wholePage_after ((all page).mp mem)) below

/-- If the regions are fine, the discovery depends on their order. -/
theorem discovered_iff_of_fine (near : info.multibootEnd < info.kernelPagesEnd + page4K * 5)
    (fine : ∀ m ∈ LinkedPages.looksAt info.dataEnd info.memoryMaps,
      LinkedPages.Fine checked info.dataEnd m)
    (disjoint : info.memoryMaps.Pairwise MemoryMap.Disjoint) :
    info.Discovered checked memory ↔ LinkedPages.HighestLast info.dataEnd info.memoryMaps := by
  obtain ⟨b, done, filled, limits⟩ := (LinkedPages.filled_blank _ memory).visitRegions
    info.isKernelEnd_dataEnd rfl fine
  rw [List.nil_append] at filled
  rw [← new_eq _ _ _ near] at done
  obtain ⟨rest, split, -⟩ := LinkedPages.looksAt_split info.dataEnd info.memoryMaps
  have looked : (LinkedPages.looksAt info.dataEnd info.memoryMaps).Pairwise
      MemoryMap.Disjoint := by
    rw [split] at disjoint
    exact (List.pairwise_append.mp disjoint).1
  obtain ⟨l, lists, distinct, all⟩ := filled.lists looked
  constructor
  · rintro ⟨a, l', new, list, -, whole, returned⟩
    cases done.symm.trans new
    cases lists.list.unique list
    refine .of_below_end info.isKernelEnd_dataEnd disjoint filled fun m pages page mem => ?_
    have free : page ∈ l := (whole page).mpr ((wholePage_iff _ _).mpr ⟨m, pages, mem⟩)
    exact ⟨(all page).mp free, ((lists.returned_iff distinct).mp returned page free).below⟩
  · intro highest
    have same := highest.withPages_looksAt disjoint
    refine ⟨b, l, done, lists.list, distinct, fun page => ?_, ?_⟩
    · rw [all, same, wholePage_iff]
    · refine (lists.returned_iff distinct).mpr fun page free => ?_
      obtain ⟨m, pages, mem⟩ := (all page).mp free
      refine (filled.takes_iff limits mem).mpr ?_
      refine LinkedPages.HighestLast.below_end ?_ looked filled pages mem
      unfold LinkedPages.HighestLast
      rw [same]
      exact highest

/-- For a map of disjoint regions `new` finds exactly the memory that it should find, and `free`
takes each of its pages back, exactly if the multiboot data does not end far after the kernel, the
regions that `new` looks at are fine, and the highest region with pages is the last one with
pages in the map. -/
theorem discovered_iff (checked : Bool) (info : BootInfo) (memory : PhysicalMemory)
    (disjoint : info.memoryMaps.Pairwise MemoryMap.Disjoint) :
    info.Discovered checked memory ↔ info.Discoverable checked := by
  by_cases near : info.multibootEnd < info.kernelPagesEnd + page4K * 5
  · by_cases fine : ∀ m ∈ LinkedPages.looksAt info.dataEnd info.memoryMaps,
      LinkedPages.Fine checked info.dataEnd m
    · rw [discovered_iff_of_fine near fine disjoint]
      constructor
      · intro highest
        exact ⟨near, fine, highest⟩
      · exact Discoverable.highestLast
    · constructor
      · intro discovered
        exact absurd discovered (not_discovered_of_not_fine near fine)
      · intro discoverable
        exact absurd discoverable.fine fine
  · constructor
    · rintro ⟨a, l, new, -⟩
      cases (new_far checked info memory near).symm.trans new
    · intro discoverable
      exact absurd discoverable.near near

/-- One available region holds the kernel, and the others end at `EXTENDED_OFFSET` or below it or
start after the kernel. -/
def OneKernelRegion (info : BootInfo) : Prop :=
  ∃ before kernel after, info.memoryMaps = before ++ kernel :: after ∧
    kernel.memType = .available ∧ kernel.baseAddr ≤ extendedOffset ∧
    info.kernelPagesEnd ≤ kernel.end ∧
    ∀ m ∈ before ++ after, m.memType = .available →
      m.end ≤ extendedOffset ∨ info.kernelPagesEnd ≤ m.baseAddr

/-- A kernel of one megabyte, with the multiboot data in low memory, and the given map. -/
def withMap (maps : List MemoryMap) : BootInfo :=
  ⟨kernelBase + 0x200000, kernelBase + 0x8000, maps, by decide, by decide⟩

/-- An available region. -/
def availableAt (baseAddr length : Nat) (fits : baseAddr + length < 2 ^ 64) : MemoryMap :=
  ⟨baseAddr, length, .available, fits⟩

/-- Low memory and a region of one page after the kernel. -/
def ascending : BootInfo :=
  withMap [availableAt 0 0x9F000 (by decide), availableAt 0x100000 0x101000 (by decide)]

theorem discovered_ascending : ascending.Discovered false fun _ _ => 0#64 := by
  have disjoint : ascending.memoryMaps.Pairwise MemoryMap.Disjoint := by
    refine List.pairwise_pair.mpr fun address low high => ?_
    have below : address < 0x9F000 := low.2
    have above : 0x100000 ≤ address := high.1
    omega
  refine (discovered_iff false ascending _ disjoint).mpr ⟨by decide, by decide, ?_⟩
  rintro last ⟨⟩ m mem
  rw [List.mem_singleton.mp mem]
  exact le_rfl

/-- Low memory up to `EXTENDED_OFFSET` and the region of the kernel. -/
def lowUpToOffset : BootInfo :=
  withMap [availableAt 0 0x100000 (by decide), availableAt 0x100000 0x101000 (by decide)]

/-- A region of one page after the kernel, in the map before the region of the kernel. -/
def descending : BootInfo :=
  withMap [availableAt 0x400000 0x1000 (by decide), availableAt 0x100000 0x101000 (by decide)]

/-- What `new` leaves: the head of the list, the page after it, `end`, and whether `free` takes the
second page. -/
def afterNew (checked : Bool) (info : BootInfo) : Option (Option Nat × Option Nat × Nat × Bool) :=
  (LinkedPages.new checked info fun _ _ => 0#64).map fun a =>
    let second := a.lowMemFreeListHead.bind fun page => pointerAt (a.memory page 0)
    (a.lowMemFreeListHead, second, a.end, second.any fun page => (a.free page).isSome)

/-- A region that ends at `EXTENDED_OFFSET` makes `new` panic, and after a map in descending order
the page of the higher region is on the free list but `free` does not take it. -/
theorem low_region_panics_and_page_lost :
    lowUpToOffset.OneKernelRegion ∧ lowUpToOffset.memoryMaps.Pairwise MemoryMap.Disjoint ∧
      afterNew false lowUpToOffset = none ∧ afterNew true lowUpToOffset = none ∧
      descending.OneKernelRegion ∧ descending.memoryMaps.Pairwise MemoryMap.Disjoint ∧
      afterNew false descending = some (some (physical2virtual 0x200000),
        some (physical2virtual 0x400000), physical2virtual 0x201000, false) := by
  refine ⟨⟨[availableAt 0 0x100000 (by decide)], _, [], rfl, by decide⟩, ?_, by decide +kernel,
    by decide +kernel, ⟨[availableAt 0x400000 0x1000 (by decide)], _, [], rfl, by decide⟩, ?_,
    by decide +kernel⟩
  · refine List.pairwise_pair.mpr fun address low high => ?_
    have below : address < 0x100000 := low.2
    have above : 0x100000 ≤ address := high.1
    omega
  · refine List.pairwise_pair.mpr fun address high low => ?_
    have above : 0x400000 ≤ address := high.1
    have below : address < 0x201000 := low.2
    omega

end BootInfo

end Emerald.MemoryManagement
