
import Emerald.MemoryManagement.Proofs.Translation

/-!
# When `map` and `unmap` return

`map` of pages it has to allocate takes one free page for each of them and one for each table that
is not there yet, and it returns if there are that many. `unmap` of pages that `map` has allocated
always returns.
-/

namespace Emerald.MemoryManagement

open VirtualMemoryMapper

variable {path : List Nat} {n virtualAddress : Nat}

/-- The paths to the tables that `map` of the pages has to make. -/
def missingTables (root : Nat) (p : Physical) (pages : List Nat) : Finset (List Nat) :=
  (pages.flatMap upperPaths).toFinset.filter fun path => tableAt root p path = none

section
variable {root i : Nat} {flags : PageFlags} {p p' : Physical} {live : Mappings}

theorem mem_missingTables {pages : List Nat} :
    path ∈ missingTables root p pages ↔
      (∃ page ∈ pages, path ∈ upperPaths page) ∧ tableAt root p path = none := by
  simp [missingTables]

/-- The tables of the first page, and those only the other pages need. -/
theorem card_missingTables_cons (page : Nat) (rest : List Nat) :
    (missingTables root p (page :: rest)).card = (missingTables root p [page]).card +
      (missingTables root p rest \ (upperPaths page).toFinset).card := by
  rw [← Finset.card_union_of_disjoint]
  · congr 1
    ext path
    simp only [mem_missingTables, Finset.mem_union, Finset.mem_sdiff, List.mem_toFinset,
      List.mem_cons, exists_eq_or_imp]
    tauto
  · rw [Finset.disjoint_left]
    intro path first later
    simp only [mem_missingTables, Finset.mem_sdiff, List.mem_toFinset, List.mem_singleton,
      exists_eq_left] at first later
    exact later.2 first.1

/-- One for a table that is not there. -/
def missing (root : Nat) (p : Physical) (path : List Nat) : Nat :=
  if tableAt root p path = none then 1 else 0

/-- The tables of one page, level by level. -/
theorem card_missingTables_page (page : Nat) :
    (missingTables root p [page]).card = missing root p [index4 page] +
      missing root p [index3 page, index4 page] +
      missing root p [index2 page, index3 page, index4 page] := by
  have distinct : (upperPaths page).Nodup := by simp [upperPaths]
  have flat : [page].flatMap upperPaths = upperPaths page := by simp
  rw [missingTables, flat, Finset.card_filter, List.sum_toFinset _ distinct]
  simp [upperPaths, missing, add_assoc]

theorem missing_congr (same : tableAt root p' path = tableAt root p path) :
    missing root p' path = missing root p path := by
  rw [missing, missing, same]

/-! ## `map` -/

theorem allocTable_returns (enough : 0 < p.allocator.freeList.length) :
    ∃ table p', allocTable p = some (table, p') := by
  cases free : p.allocator.freeList with
  | nil => simp [free] at enough
  | cons page rest =>
    simp [allocTable, PhysicalPageAllocator.allocZeroed, PhysicalPageAllocator.alloc, free]

/-- One level of `map` takes a free page if its table is not there. -/
theorem mapLevel_returns (flags : PageFlags) (here : tableAt root p path = some n)
    (enough : missing root p (i :: path) ≤ p.allocator.freeList.length) :
    ∃ table p', mapLevel flags n i p = some (table, p') ∧
      p'.allocator.freeList.length + missing root p (i :: path) =
        p.allocator.freeList.length := by
  have leads : tableAt root p (i :: path) = childTable (p.memory n i) := by
    simp only [tableAt, nodeAt] at here ⊢
    rw [here, Option.bind_some]
  rw [missing, leads] at enough ⊢
  cases present : isPresent (p.memory n i) with
  | true =>
    rw [childTable_of_present present]
    simp [mapLevel, ensureEntry, present, Physical.write]
  | false =>
    rw [childTable_of_absent present] at enough ⊢
    obtain ⟨table, q, allocated⟩ := allocTable_returns enough
    let entry := (BitVec.ofNat 64 table &&& addrMask) ||| ptePresent ||| flags.bits
    have shorter := allocTable_length allocated
    refine ⟨tableOf entry, q.write n i entry, ?_, shorter⟩
    simp [mapLevel, ensureEntry, present, allocated, entry]

/-- The loop of `map` for one page that it has to allocate. -/
theorem mapPage_returns (flags : PageFlags) (virtualAddress : Nat) (tree : Tree root p)
    (enough : (missingTables root p [pageNumber virtualAddress]).card + 1 ≤
      p.allocator.freeList.length) :
    ∃ p', mapPage root flags virtualAddress none p = some p' ∧
      p'.allocator.freeList.length +
        ((missingTables root p [pageNumber virtualAddress]).card + 1) =
          p.allocator.freeList.length := by
  simp only [mapPage, getL4_eq, getL3_eq, getL2_eq, getL1_eq]
  generalize pageNumber virtualAddress = v at *
  rw [card_missingTables_page] at enough ⊢
  obtain ⟨address, p1, chosen⟩ := allocTable_returns (p := p) (by omega)
  have taken := allocTable_length chosen
  obtain ⟨⟨tree1, tables1, -⟩, -⟩ := allocTable_spec tree chosen
  have same4 := missing_congr (tables1 [index4 v] (by simp))
  obtain ⟨n4, p2, first, left4⟩ := mapLevel_returns flags (nodeAt_root root p1)
    (i := index4 v) (by omega)
  have maps4 := mapLevel_mapsLevel tree1 (by simp) (nodeAt_root root p1) first
  have same3 := missing_congr ((maps4.tables [index3 v, index4 v] (by simp) (by simp)).trans
    (tables1 _ (by simp)))
  obtain ⟨n3, p3, second, left3⟩ := mapLevel_returns flags maps4.leads
    (i := index3 v) (by rw [same3]; omega)
  have maps3 := mapLevel_mapsLevel maps4.grows.tree (by simp) maps4.leads second
  have same2 := missing_congr
    (((maps3.tables [index2 v, index3 v, index4 v] (by simp) (by simp)).trans
      (maps4.tables _ (by simp) (by simp))).trans (tables1 _ (by simp)))
  obtain ⟨n2, p4, third, left2⟩ := mapLevel_returns flags maps3.leads
    (i := index2 v) (by rw [same2]; omega)
  refine ⟨p4.write n2 (index1 v) (leafEntry address flags), ?_, ?_⟩
  · simp [pageToMap, chosen, first, second, third]
  · show p4.allocator.freeList.length + _ = _
    omega

/-- Which tables are missing after `map` of one page. -/
theorem Base.missingTables_mapPage {physicalAddress : Option Nat} (base : Base root p live)
    (done : VirtualMemoryMapper.mapPage root flags virtualAddress physicalAddress p = some p')
    (pages : List Nat) :
    missingTables root p' pages =
      missingTables root p pages \ (upperPaths (pageNumber virtualAddress)).toFinset := by
  have there : ∀ path ∈ upperPaths (pageNumber virtualAddress), tableAt root p' path ≠ none := by
    intro path mem none
    obtain ⟨e, entry, present⟩ := (base.mapPage done).upper_present
      (Mappings.set_of_eq live _ _) path mem
    have nonempty : path ≠ [] := by
      rintro rfl
      simp [upperPaths] at mem
    obtain ⟨i, rest, rfl⟩ := List.exists_cons_of_ne_nil nonempty
    rw [tableAt, nodeAt_eq_some_iff.mpr ⟨e, entry, childTable_of_present present⟩] at none
    cases none
  obtain ⟨tables, -⟩ := mapPage_frame base.tree done
  ext path
  simp only [mem_missingTables, Finset.mem_sdiff, List.mem_toFinset]
  constructor
  · rintro ⟨⟨page, mem, upper⟩, none⟩
    have other : path ∉ upperPaths (pageNumber virtualAddress) := fun here => there path here none
    rw [tables path (length_of_mem_upperPaths upper) (fun here => absurd here other)] at none
    exact ⟨⟨⟨page, mem, upper⟩, none⟩, other⟩
  · rintro ⟨⟨⟨page, mem, upper⟩, none⟩, other⟩
    rw [tables path (length_of_mem_upperPaths upper) (fun here => absurd here other)]
    exact ⟨⟨page, mem, upper⟩, none⟩

/-- The loop of `map` over pages that it has to allocate. -/
theorem Base.mapPages_returns (base : Base root p live) (flags : PageFlags)
    (enough : n + (missingTables root p (pagesFrom n virtualAddress)).card ≤
      p.allocator.freeList.length) :
    ∃ p', VirtualMemoryMapper.mapPages root flags n virtualAddress none p = some p' := by
  induction n generalizing virtualAddress p live with
  | zero => exact ⟨p, rfl⟩
  | succ n ih =>
    rw [pagesFrom, card_missingTables_cons] at enough
    obtain ⟨q, first, left⟩ := mapPage_returns flags virtualAddress base.tree (by omega)
    have fewer := base.missingTables_mapPage first (pagesFrom n (wrapAdd virtualAddress page4K))
    have enough' : n + (missingTables root q (pagesFrom n (wrapAdd virtualAddress page4K))).card ≤
        q.allocator.freeList.length := by
      rw [fewer]
      omega
    obtain ⟨p', rest⟩ := ih (base.mapPage first) enough'
    exact ⟨p', by rw [VirtualMemoryMapper.mapPages, first]; exact rest⟩

/-! ## `unmap` -/

theorem unmapLevel_returns {e : BitVec 64} (flags : PageFlags)
    (here : tableAt root p path = some n) (there : pteAt root p (i :: path) = some e)
    (present : isPresent e = true) : ∃ table p', unmapLevel flags n i p = some (table, p') := by
  rw [pteAt, entryAt_of_nodeAt here, Option.some.injEq] at there
  rw [unmapLevel, there, if_pos present]
  exact ⟨_, _, rfl⟩

/-- The loop of `unmap` for a page that `map` has allocated. -/
theorem Base.unmapPage_returns {m : Mapping} (base : Base root p live) (flags : PageFlags)
    (mapped : live (pageNumber virtualAddress) = some m) (allocated : m.allocated = true) :
    ∃ p', VirtualMemoryMapper.unmapPage root flags true virtualAddress p = some p' := by
  have upper := base.upper_present mapped
  obtain ⟨address, leaf⟩ := base.mapped _ m mapped
  have owned := base.owned _ m _ mapped allocated leaf
  simp only [VirtualMemoryMapper.unmapPage, getL4_eq, getL3_eq, getL2_eq, getL1_eq]
  generalize pageNumber virtualAddress = v at *
  obtain ⟨e4, at4, present4⟩ := upper [index4 v] (by simp [upperPaths])
  obtain ⟨e3, at3, present3⟩ := upper [index3 v, index4 v] (by simp [upperPaths])
  obtain ⟨e2, at2, present2⟩ := upper [index2 v, index3 v, index4 v] (by simp [upperPaths])
  obtain ⟨n4, p1, first⟩ := unmapLevel_returns flags (nodeAt_root root p) at4 present4
  obtain ⟨tree1, leads4, -, entries1, -⟩ :=
    unmapLevel_spec base.tree (by simp) (nodeAt_root root p) first
  obtain ⟨n3, p2, second⟩ := unmapLevel_returns flags leads4 (i := index3 v)
    (by rw [entries1 _ (by simp), if_neg (by simp), at3]) present3
  obtain ⟨tree2, leads3, -, entries2, -⟩ := unmapLevel_spec tree1 (by simp) leads4 second
  obtain ⟨n2, p3, third⟩ := unmapLevel_returns flags leads3 (i := index2 v)
    (by rw [entries2 _ (by simp), if_neg (by simp), entries1 _ (by simp), if_neg (by simp), at2])
    present2
  obtain ⟨tree3, here, entries, outside⟩ := unmapLevels_spec base.tree first second third
  have entry : p3.memory n2 (index1 v) = leafEntry address m.flags := by
    have unchanged := entries (leafPath v) (le_refl 4)
    rw [if_neg (fun mem => upper_ne_leaf mem rfl), leaf] at unchanged
    exact Option.some.inj ((entryAt_of_nodeAt here).symm.trans unchanged)
  obtain ⟨p4, freed⟩ := PhysicalPageAllocator.free_of_freeable tree3.allocator
    (outside _ owned).1.freeable
  refine ⟨p4.write n2 (index1 v) 0#64, ?_⟩
  simp [first, second, third, entry, leafEntry_present, releasePage, freeEntry, freed]

/-- The loop of `unmap` over distinct pages that `map` has allocated. -/
theorem Base.unmapPages_returns (base : Base root p live)
    (distinct : (pagesFrom n virtualAddress).Nodup)
    (mapped : ∀ page ∈ pagesFrom n virtualAddress, ∃ m, live page = some m ∧
      m.allocated = true) :
    ∃ p', VirtualMemoryMapper.unmapPages root flags true n virtualAddress p = some p' := by
  induction n generalizing virtualAddress p live with
  | zero => exact ⟨p, rfl⟩
  | succ n ih =>
    rw [pagesFrom, List.nodup_cons] at distinct
    obtain ⟨m, here, allocated⟩ := mapped _ List.mem_cons_self
    obtain ⟨q, first⟩ := base.unmapPage_returns flags here allocated
    have contract : ∀ m', live (pageNumber virtualAddress) = some m' → true = true →
        m'.allocated = true := by
      intro m' here' _
      rw [here] at here'
      rw [← Option.some.inj here']
      exact allocated
    obtain ⟨p', rest⟩ := ih (base.unmapPage contract first).1 distinct.2 (by
      intro page mem
      have other : page ≠ pageNumber virtualAddress := by
        rintro rfl
        exact distinct.1 mem
      rw [Mappings.set_of_ne _ _ other]
      exact mapped page (List.mem_cons_of_mem _ mem))
    exact ⟨p', by rw [VirtualMemoryMapper.unmapPages, first]; exact rest⟩

end

end Emerald.MemoryManagement
