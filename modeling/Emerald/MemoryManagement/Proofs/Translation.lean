
import Emerald.MemoryManagement.Proofs.Teardown

/-!
# What mapped pages translate to

A virtual page translates to what the walk over the four levels ends at, each entry read with
`ADDR_MASK`. `map` sets the translation of the pages of its entry and of no other page. The mask
keeps the bits 12 to 31 of an address, so a physical page at or above 4 GiB is mapped to another
one.
-/

namespace Emerald.MemoryManagement

open VirtualMemoryMapper

variable {entry : VirtualMemoryMapEntry} {n page address virtualAddress k : Nat}
  {physicalAddress : Option Nat}

/-- The tables of a mapper, in a physical memory where they are a tree. -/
structure MapperState where
  vm : VirtualMemoryMapper
  physical : Physical
  tree : Tree vm.pageMapL4 physical

/-- The physical page a virtual page leads to. -/
def translatePage (root : Nat) (p : Physical) (page : Nat) : Option Nat :=
  tableAt root p (leafPath page)

/-- The pages the loop of `map` allocates, one for each virtual page. -/
def allocatedPages (root : Nat) (flags : PageFlags) : Nat → Nat → Physical → List Nat
  | 0, _, _ => []
  | pages + 1, virtualAddress, p =>
    match allocTable p, mapPage root flags virtualAddress none p with
    | some (page, _), some p =>
      page :: allocatedPages root flags pages (wrapAdd virtualAddress page4K) p
    | _, _ => []

/-- The pages from a physical address on, in machine arithmetic. -/
def givenPages (address pages : Nat) : List Nat :=
  (List.range pages).map fun i => (alignDown address page4K + page4K * i) % 2 ^ 64

/-- Where the pages of an entry are to lead: to the given physical pages, or to the ones that are
allocated for them. -/
def MapperState.targets (s : MapperState) (entry : VirtualMemoryMapEntry) : List Nat :=
  match entry.physicalAddress with
  | some address => givenPages address entry.range.1
  | none => allocatedPages s.vm.pageMapL4 entry.flags entry.range.1 entry.range.2 s.physical

section
variable {root table : Nat} {flags : PageFlags} {p p' : Physical}

/-! ## The entries of level 1 -/

theorem tableOf_lt (entry : BitVec 64) : tableOf entry < 2 ^ 32 := by
  have small : (entry &&& addrMask).toNat ≤ addrMask.toNat := by
    exact Nat.and_le_right
  have mask : addrMask.toNat < 2 ^ 32 := by decide
  exact lt_of_le_of_lt small mask

theorem translatePage_eq (root : Nat) (p : Physical) (page : Nat) :
    translatePage root p page = (pteAt root p (leafPath page)).bind childTable :=
  nodeAt_cons _ _

theorem translatePage_lt (leads : translatePage root p page = some address) : address < 2 ^ 32 := by
  rw [translatePage_eq] at leads
  obtain ⟨e, -, child⟩ := bind_eq_some.mp leads
  unfold childTable at child
  split at child
  · rw [← Option.some.inj child]
    exact tableOf_lt e
  · simp at child

/-- The mask keeps an aligned address below 4 GiB. -/
theorem tableOf_leafEntry_of_lt (aligned : page4K ∣ address) (small : address % 2 ^ 64 < 2 ^ 32)
    (flags : PageFlags) : tableOf (leafEntry address flags) = address % 2 ^ 64 := by
  simp only [leafEntry, tableOf_or_ptePresent, tableOf_or_bits]
  unfold tableOf
  rw [BitVec.and_assoc]
  exact and_addrMask_of_dvd ((Nat.dvd_mod_iff (by decide)).mpr aligned) small

theorem childTable_leafEntry (address : Nat) (flags : PageFlags) :
    childTable (leafEntry address flags) = some (tableOf (leafEntry address flags)) :=
  childTable_of_present (leafEntry_present address flags)

/-- Only the page that is mapped gets another translation. -/
theorem translatePage_mapPage (tree : Tree root p)
    (done : mapPage root flags virtualAddress physicalAddress p = some p') (small : page < 2 ^ 36)
    (other : page ≠ pageNumber virtualAddress) :
    translatePage root p' page = translatePage root p page := by
  obtain ⟨-, -, -, -, leaves, -⟩ := mapPage_spec tree done
  have ne : leafPath page ≠ leafPath (pageNumber virtualAddress) :=
    fun same => other (leafPath_inj small (pageNumber_lt _) same)
  rw [translatePage_eq, translatePage_eq]
  rcases leaves (leafPath page) rfl ne with same | ⟨absent, zero⟩
  · rw [same]
  · rw [absent, zero]
    exact childTable_zero

/-- The loop: only its pages get other translations. -/
theorem translatePage_mapPages (tree : Tree root p)
    (done : mapPages root flags n virtualAddress physicalAddress p = some p')
    (small : page < 2 ^ 36) (other : page ∉ pagesFrom n virtualAddress) :
    translatePage root p' page = translatePage root p page := by
  induction n generalizing virtualAddress physicalAddress p with
  | zero =>
    rw [← Option.some.inj done]
  | succ n ih =>
    obtain ⟨q, first, rest⟩ := mapPages_succ.mp done
    obtain ⟨-, -, tree', -⟩ := mapPage_spec tree first
    rw [pagesFrom, List.mem_cons, not_or] at other
    rw [ih tree' rest other.2, translatePage_mapPage tree first small other.1]

/-- The translation of the first page after the whole loop. -/
theorem translatePage_first {q r : Physical} (tree : Tree root p)
    (first : mapPage root flags virtualAddress physicalAddress p = some q)
    (rest : mapPages root flags n (wrapAdd virtualAddress page4K)
      (physicalAddress.map (wrapAdd · page4K)) q = some p')
    (chosen : pageToMap physicalAddress p = some (address, r))
    (once : pageNumber virtualAddress ∉ pagesFrom n (wrapAdd virtualAddress page4K)) :
    translatePage root p' (pageNumber virtualAddress) =
      some (tableOf (leafEntry address flags)) := by
  obtain ⟨address', ⟨r', chosen'⟩, tree', leaf, -⟩ := mapPage_spec tree first
  obtain ⟨rfl, -⟩ := Prod.mk.inj (Option.some.inj (chosen.symm.trans chosen'))
  rw [translatePage_mapPages tree' rest (pageNumber_lt _) once, translatePage_eq, leaf]
  exact childTable_leafEntry address flags

/-! ## The pages of a range are distinct -/

theorem pagesFrom_mod (n address : Nat) :
    pagesFrom n (address % 2 ^ 64) = pagesFrom n address := by
  have page : pageNumber (address % 2 ^ 64) = pageNumber address := by
    unfold pageNumber page4K
    omega
  have next : wrapAdd (address % 2 ^ 64) page4K = wrapAdd address page4K := by
    unfold wrapAdd
    omega
  cases n with
  | zero => rfl
  | succ n => rw [pagesFrom, pagesFrom, page, next]

theorem pagesFrom_succ (n k : Nat) :
    pagesFrom (n + 1) (page4K * k) = k % 2 ^ 36 :: pagesFrom n (page4K * (k + 1)) := by
  have page : pageNumber (page4K * k) = k % 2 ^ 36 := by
    unfold pageNumber page4K
    omega
  rw [pagesFrom, page, wrapAdd, pagesFrom_mod, Nat.mul_succ]

theorem mem_pagesFrom (mem : page ∈ pagesFrom n (page4K * k)) :
    ∃ i < n, page = (k + i) % 2 ^ 36 := by
  induction n generalizing k with
  | zero => simp [pagesFrom] at mem
  | succ n ih =>
    rw [pagesFrom_succ] at mem
    rcases List.mem_cons.mp mem with rfl | later
    · exact ⟨0, by omega, rfl⟩
    · obtain ⟨i, less, rfl⟩ := ih later
      exact ⟨i + 1, by omega, by rw [add_assoc, add_comm 1 i]⟩

theorem mem_pagesFrom_of_lt {i : Nat} (less : i < n) :
    (k + i) % 2 ^ 36 ∈ pagesFrom n (page4K * k) := by
  induction n generalizing k i with
  | zero => omega
  | succ n ih =>
    rw [pagesFrom_succ, List.mem_cons]
    cases i with
    | zero => exact .inl rfl
    | succ i =>
      rw [add_comm i 1, ← add_assoc]
      exact .inr (ih (by omega))

theorem pagesFrom_add (m n k : Nat) :
    pagesFrom (m + n) (page4K * k) =
      pagesFrom m (page4K * k) ++ pagesFrom n (page4K * (k + m)) := by
  induction m generalizing k with
  | zero => simp [pagesFrom]
  | succ m ih =>
    rw [add_right_comm m 1 n, pagesFrom_succ, pagesFrom_succ, ih, List.cons_append,
      add_right_comm k 1 m, ← add_assoc]

theorem pagesFrom_nodup (few : n ≤ 2 ^ 36) : (pagesFrom n (page4K * k)).Nodup := by
  induction n generalizing k with
  | zero => exact List.nodup_nil
  | succ n ih =>
    rw [pagesFrom_succ, List.nodup_cons]
    refine ⟨?_, ih (by omega)⟩
    intro mem
    obtain ⟨i, less, same⟩ := mem_pagesFrom mem
    omega

/-! ## A completed loop has allocated its pages -/

theorem allocTable_length (done : allocTable p = some (table, p')) :
    p'.allocator.freeList.length + 1 = p.allocator.freeList.length := by
  simp only [allocTable, bind_eq_some, Prod.exists, Option.some.injEq, Prod.mk.injEq] at done
  obtain ⟨page, q, allocated, -, rfl⟩ := done
  rw [(PhysicalPageAllocator.allocZeroed_spec allocated).1]
  rfl

theorem mapLevel_length {index next : Nat} (done : mapLevel flags table index p = some (next, p')) :
    p'.allocator.freeList.length ≤ p.allocator.freeList.length := by
  simp only [mapLevel, ensureEntry, Option.bind_eq_bind, Option.bind_eq_some_iff, Prod.exists,
    Option.some.injEq] at done
  obtain ⟨e, q, ensured, -, rfl⟩ := done
  show q.allocator.freeList.length ≤ _
  split at ensured
  · rw [← (Prod.mk.inj (Option.some.inj ensured)).2]
  · simp only [Option.bind_eq_some_iff, Prod.exists] at ensured
    obtain ⟨t, q', allocated, -, rfl⟩ := ensured
    have shorter := allocTable_length allocated
    omega

theorem mapPage_length (done : mapPage root flags virtualAddress none p = some p') :
    p'.allocator.freeList.length + 1 ≤ p.allocator.freeList.length := by
  simp only [mapPage, bind_eq_some, Prod.exists] at done
  obtain ⟨address, p1, chosen, n4, p2, first, n3, p3, second, n2, p4, third, last⟩ := done
  cases last
  have allocated := allocTable_length (p := p) chosen
  have level4 := mapLevel_length first
  have level3 := mapLevel_length second
  have level2 := mapLevel_length third
  show p4.allocator.freeList.length + 1 ≤ _
  omega

theorem mapPages_length (done : mapPages root flags n virtualAddress none p = some p') :
    n ≤ p.allocator.freeList.length := by
  induction n generalizing virtualAddress p with
  | zero => exact Nat.zero_le _
  | succ n ih =>
    obtain ⟨q, first, rest⟩ := mapPages_succ.mp done
    have shorter := mapPage_length first
    have later := ih rest
    omega

/-- The free pages lie in the kernel's mapping of physical memory. -/
theorem freeList_length_le {a : PhysicalPageAllocator} (wf : PhysicalPageAllocator.Wf a) :
    a.freeList.length ≤ 2 ^ 36 := by
  have inside : ∀ page ∈ a.freeList, page4K ∣ page ∧ kernelBase ≤ page ∧ page < kernelEnd := by
    intro page mem
    have freeable := wf.pages page mem
    exact ⟨(isAligned_page4K page).mp freeable.aligned, le_trans wf.lower freeable.above,
      lt_of_lt_of_le freeable.below wf.upper⟩
  have numbers : (a.freeList.map fun page => (page - kernelBase) / page4K).Nodup := by
    refine List.Nodup.map_on ?_ wf.distinct
    intro x first y second same
    obtain ⟨alignedX, aboveX, -⟩ := inside x first
    obtain ⟨alignedY, aboveY, -⟩ := inside y second
    simp only [page4K] at *
    omega
  have bounded : (a.freeList.map fun page => (page - kernelBase) / page4K) ⊆
      List.range 32768 := by
    intro number mem
    obtain ⟨page, present, rfl⟩ := List.mem_map.mp mem
    obtain ⟨-, above, below⟩ := inside page present
    rw [List.mem_range]
    simp only [page4K, kernelEnd, kernelMappedSize] at *
    omega
  have length := (numbers.subperm bounded).length_le
  rw [List.length_map, List.length_range] at length
  omega

/-! ## The translations after the loop -/

theorem tree_mapPages (tree : Tree root p)
    (done : mapPages root flags n virtualAddress physicalAddress p = some p') : Tree root p' := by
  induction n generalizing virtualAddress physicalAddress p with
  | zero =>
    rw [← Option.some.inj done]
    exact tree
  | succ n ih =>
    obtain ⟨q, first, rest⟩ := mapPages_succ.mp done
    obtain ⟨-, -, tree', -⟩ := mapPage_spec tree first
    exact ih tree' rest

/-- Given physical pages below 4 GiB are what the virtual pages lead to. -/
theorem forall₂_given (tree : Tree root p)
    (done : mapPages root flags n virtualAddress (some address) p = some p')
    (same : address % 2 ^ 64 = page4K * k % 2 ^ 64)
    (distinct : (pagesFrom n virtualAddress).Nodup)
    (small : ∀ i < n, (page4K * k + page4K * i) % 2 ^ 64 < 2 ^ 32) :
    List.Forall₂ (fun page target => translatePage root p' page = some target)
      (pagesFrom n virtualAddress)
      ((List.range n).map fun i => (page4K * k + page4K * i) % 2 ^ 64) := by
  induction n generalizing virtualAddress address k p with
  | zero => exact .nil
  | succ n ih =>
    obtain ⟨q, first, rest⟩ := mapPages_succ.mp done
    obtain ⟨once, distinct⟩ := List.nodup_cons.mp distinct
    obtain ⟨-, -, tree', -⟩ := mapPage_spec tree first
    have smallFirst : address % 2 ^ 64 < 2 ^ 32 := by
      rw [same]
      exact small 0 (Nat.succ_pos n)
    have aligned : page4K ∣ address := by
      simp only [page4K] at same ⊢
      omega
    rw [List.range_succ_eq_map, List.map_cons, List.map_map]
    refine .cons ?_ ?_
    · rw [translatePage_first tree first rest (r := p) rfl once,
        tableOf_leafEntry_of_lt aligned smallFirst, same]
      rfl
    · have next : ∀ i, page4K * (k + 1) + page4K * i = page4K * k + page4K * (i + 1) := by
        intro i
        simp only [page4K]
        omega
      have later := ih (k := k + 1) tree' rest
        (by simp only [wrapAdd, page4K] at same ⊢; omega) distinct
        (fun i less => by rw [next]; exact small (i + 1) (Nat.succ_lt_succ less))
      simp only [next] at later
      exact later

/-- Allocated pages are what the virtual pages lead to. -/
theorem forall₂_allocated (tree : Tree root p)
    (done : mapPages root flags n virtualAddress none p = some p')
    (distinct : (pagesFrom n virtualAddress).Nodup) :
    List.Forall₂ (fun page target => translatePage root p' page = some target)
      (pagesFrom n virtualAddress) (allocatedPages root flags n virtualAddress p) := by
  induction n generalizing virtualAddress p with
  | zero => exact .nil
  | succ n ih =>
    obtain ⟨q, first, rest⟩ := mapPages_succ.mp done
    obtain ⟨once, distinct⟩ := List.nodup_cons.mp distinct
    obtain ⟨address, ⟨r, chosen⟩, tree', -⟩ := mapPage_spec tree first
    have allocated : allocTable p = some (address, r) := chosen
    have frame : IsFrame address := (allocTable_spec tree allocated).2.1.frame
    rw [allocatedPages, allocated, first]
    refine .cons ?_ (ih tree' rest distinct)
    rw [translatePage_first tree first rest chosen once, tableOf_leafEntry frame]

theorem tree_map {vm : VirtualMemoryMapper} (tree : Tree vm.pageMapL4 p)
    (done : vm.map entry p = some p') : Tree vm.pageMapL4 p' := by
  obtain ⟨n, k, physicalAddress, -, -, -, looped⟩ := map_eq_some done
  exact tree_mapPages tree looped

end

/-- There are not many pages below 4 GiB. -/
theorem le_of_givenPages_small {start : Nat}
    (small : ∀ i < n, (start + page4K * i) % 2 ^ 64 < 2 ^ 32) : n ≤ 2 ^ 36 := by
  by_contra many
  have high := small 2097152 (by omega)
  have low := small 0 (by omega)
  simp only [page4K] at high low
  omega

namespace MapperState

/-- `map` completes in the state `s` and leaves the state `t`. -/
structure Maps (s : MapperState) (entry : VirtualMemoryMapEntry) (t : MapperState) : Prop where
  done : s.vm.map entry s.physical = some t.physical
  vm : t.vm = s.vm

/-- Where `map` completes, the tables are a tree again. -/
theorem exists_maps {s : MapperState} {p : Physical} (done : s.vm.map entry s.physical = some p) :
    ∃ t, s.Maps entry t ∧ t.physical = p :=
  ⟨⟨s.vm, p, tree_map s.tree done⟩, ⟨done, rfl⟩, rfl⟩

/-- The state of every mapper the kernel can reach. -/
def ofReachable (s : ProcessSpace) (reached : ProcessSpace.ReachableSpace s) : MapperState :=
  ⟨s.vm, s.physical, (ProcessSpace.inv_of_reachable s reached).base.tree⟩

/-- The physical page the byte at a virtual address lies in. -/
def translate (s : MapperState) (address : Nat) : Option Nat :=
  translatePage s.vm.pageMapL4 s.physical (pageNumber address)

/-- The pages of the entry lead to their targets, and all others to what they did before. -/
structure Translates (s : MapperState) (entry : VirtualMemoryMapEntry) (t : MapperState) :
    Prop where
  pages : List.Forall₂ (fun page target =>
      translatePage t.vm.pageMapL4 t.physical page = some target) entry.pages (s.targets entry)
  others : ∀ address, pageNumber address ∉ entry.pages → t.translate address = s.translate address

/-- The given physical pages, if any, lie below 4 GiB. -/
def BelowFourGiB (entry : VirtualMemoryMapEntry) : Prop :=
  ∀ address, entry.physicalAddress = some address →
    ∀ page ∈ givenPages address entry.range.1, page < 2 ^ 32

/-- In every state and for every call of `map` that completes, the translations are right if and
only if the given physical pages lie below 4 GiB. -/
theorem translates_iff_belowFourGiB (s t : MapperState) (entry : VirtualMemoryMapEntry)
    (mapped : s.Maps entry t) : Translates s entry t ↔ BelowFourGiB entry := by
  obtain ⟨done, sameVm⟩ := mapped
  obtain ⟨n, k, physicalAddress, range, pages, aligned, looped⟩ := map_eq_some done
  constructor
  · intro translates address given target mem
    -- whatever a page leads to went through the mask
    have leads := translates.pages
    rw [targets, given] at leads
    obtain ⟨i, less, rfl⟩ := List.mem_iff_getElem.mp mem
    have leadsTo := (List.forall₂_iff_get.mp leads).2 i
      (by rw [leads.length_eq]; exact less) less
    exact translatePage_lt leadsTo
  · intro below
    refine ⟨?_, ?_⟩
    · rw [sameVm, targets, pages]
      cases given : entry.physicalAddress with
      | some address =>
        rw [given, Option.map_some, alignDown_page] at aligned
        rw [aligned] at looped
        have small : ∀ i < n, (page4K * (address / page4K) + page4K * i) % 2 ^ 64 < 2 ^ 32 := by
          intro i less
          refine below address given _ (List.mem_map.mpr ⟨i, ?_, ?_⟩)
          · rw [range]
            exact List.mem_range.mpr less
          · rw [alignDown_page]
        have few : n ≤ 2 ^ 36 := le_of_givenPages_small small
        simp only [givenPages, range, alignDown_page]
        exact forall₂_given s.tree looped rfl (pagesFrom_nodup few) small
      | none =>
        rw [given] at aligned
        rw [aligned] at looped
        have few : n ≤ 2 ^ 36 :=
          le_trans (mapPages_length looped) (freeList_length_le s.tree.allocator)
        simp only [range]
        exact forall₂_allocated s.tree looped (pagesFrom_nodup few)
    · intro address other
      rw [pages] at other
      rw [translate, sameVm]
      exact translatePage_mapPages s.tree looped (pageNumber_lt _) other

end MapperState

namespace ProcessSpace

/-- The state of the kernel's mapper at boot. -/
def bootState : MapperState := .ofReachable bootSpace (.start boot_bootSpace)

/-- In every address space a page that `map` has allocated leads to a physical page that is neither
free nor a table, and no other such page leads there. -/
theorem allocated_apart (s : ProcessSpace) (reached : ReachableSpace s) {v : Nat} {m : Mapping}
    (mapped : s.live v = some m) (own : m.allocated = true) :
    ∃ frame, translatePage s.vm.pageMapL4 s.physical v = some frame ∧
      Outside s.vm.pageMapL4 s.physical frame ∧
      ∀ v' m', s.live v' = some m' → m'.allocated = true → v' ≠ v →
        translatePage s.vm.pageMapL4 s.physical v' ≠ some frame := by
  have base := (inv_of_reachable s reached).base
  obtain ⟨address, leaf⟩ := base.mapped v m mapped
  refine ⟨_, ?_, base.owned v m _ mapped own leaf, fun v' m' mapped' own' other same => ?_⟩
  · rw [translatePage_eq, leaf]
    exact childTable_leafEntry _ _
  · obtain ⟨address', leaf'⟩ := base.mapped v' m' mapped'
    rw [translatePage_eq, leaf', Option.bind_some, childTable_leafEntry, Option.some.injEq] at same
    exact other (base.apart v' v m' m _ _ mapped' mapped own' own leaf' leaf same)

/-- Two pages of user code. -/
theorem allocated_codePages : ∃ s frame, ReachableSpace s ∧
    translatePage s.vm.pageMapL4 s.physical 1 = some frame ∧
    Outside s.vm.pageMapL4 s.physical frame ∧ (s.live 2).isSome ∧
    translatePage s.vm.pageMapL4 s.physical 2 ≠ some frame := by
  obtain ⟨s, reached, first, second⟩ : ∃ s, ReachableSpace s ∧
      s.live 1 = some ⟨codeEntry.flags, true⟩ ∧ s.live 2 = some ⟨codeEntry.flags, true⟩ :=
    Reachable.exists_of_run boot_bootSpace [.map { codeEntry with size := 2 * page4K }]
      (by decide +kernel)
  obtain ⟨frame, leads, outside, alone⟩ := allocated_apart s reached first rfl
  exact ⟨s, frame, reached, leads, outside, by rw [second]; rfl, alone 2 _ second rfl (by decide)⟩

end ProcessSpace

namespace MapperState

/-- The kernel's first page is mapped right. -/
theorem translates_kernelEntry :
    ∃ t, ProcessSpace.bootState.Maps ProcessSpace.kernelEntry t ∧
      Translates ProcessSpace.bootState ProcessSpace.kernelEntry t := by
  have runs : (ProcessSpace.bootSpace.vm.map ProcessSpace.kernelEntry
      ProcessSpace.bootSpace.physical).isSome = true := by
    decide +kernel
  obtain ⟨p, done⟩ := Option.isSome_iff_exists.mp runs
  obtain ⟨t, mapped, -⟩ := exists_maps (s := ProcessSpace.bootState) done
  refine ⟨t, mapped, (translates_iff_belowFourGiB _ t _ mapped).mpr ?_⟩
  intro address given
  obtain rfl : extendedOffset = address := Option.some.inj given
  decide +kernel

/-- A device page at 4 GiB. -/
def highEntry : VirtualMemoryMapEntry :=
  ⟨kernelLink, some 0x100000000, page4K, ⟨true, false, false, false⟩⟩

/-- It is mapped to the physical page 0. -/
theorem not_translates_highEntry :
    ∃ t, ProcessSpace.bootState.Maps highEntry t ∧ t.translate kernelLink = some 0 ∧
      ProcessSpace.bootState.targets highEntry = [0x100000000] ∧
      ¬ Translates ProcessSpace.bootState highEntry t := by
  have runs : (ProcessSpace.bootSpace.vm.map highEntry ProcessSpace.bootSpace.physical).map
      (fun p => translatePage ProcessSpace.bootSpace.vm.pageMapL4 p (pageNumber kernelLink)) =
      some (some 0) := by
    decide +kernel
  obtain ⟨p, done, leads⟩ := Option.map_eq_some_iff.mp runs
  obtain ⟨t, mapped, rfl⟩ := exists_maps (s := ProcessSpace.bootState) done
  have target : ProcessSpace.bootState.targets highEntry = [0x100000000] := by decide +kernel
  have pages : highEntry.pages = [pageNumber kernelLink] := by decide +kernel
  have translated : t.translate kernelLink = some 0 := by
    rw [translate, mapped.vm]
    exact leads
  refine ⟨t, mapped, translated, target, fun translates => ?_⟩
  have wrong := translates.pages
  rw [pages] at wrong
  cases wrong with
  | cons first _ => exact absurd (Option.some.inj (first.symm.trans translated)) (by decide)

end MapperState

end Emerald.MemoryManagement
