
import Emerald.MemoryManagement.Proofs.PageMapping
import Emerald.Misc.Reachable

/-!
# Effective permissions

What the processor allows for a page is the conjunction of the flags over the four entries it walks.
`map` adds the flags of a range to the shared entries above level 1 and `unmap` removes them there,
so a range that is unmapped can take the permissions of pages outside it.
`permissions_iff_keepsFlags` says when it does.
-/

namespace Emerald.MemoryManagement
variable {vm : VirtualMemoryMapper}

open VirtualMemoryMapper

variable {entry : VirtualMemoryMapEntry} {n virtualAddress size start : Nat} {isAllocated : Bool}
  {path : List Nat}

/-! ## Ranges -/

/-- The pages of a range, by their numbers. -/
def pagesFrom : Nat → Nat → List Nat
  | 0, _ => []
  | pages + 1, address => pageNumber address :: pagesFrom pages (wrapAdd address page4K)

/-- The pages of a range that `alignRange` has given. -/
def pagesOfRange : Option (Nat × Nat × Nat) → List Nat
  | some (start, size, _) => pagesFrom (size / page4K) start
  | none => []

/-- The pages `map` and `unmap` go through. -/
def VirtualMemoryMapEntry.pages (entry : VirtualMemoryMapEntry) : List Nat :=
  pagesOfRange (alignRange entry.virtualAddress entry.size)

theorem VirtualMemoryMapEntry.pages_eq {offset : Nat}
    (aligned : alignRange entry.virtualAddress entry.size = some (start, size, offset)) :
    entry.pages = pagesFrom (size / page4K) start :=
  congrArg pagesOfRange aligned

/-- The number of pages of a range that `alignRange` has given and the address of the first one. -/
def pageRange : Option (Nat × Nat × Nat) → Nat × Nat
  | some (start, size, _) => (size / page4K, start)
  | none => (0, 0)

/-- The number of pages of an entry and the address of the first one. -/
def VirtualMemoryMapEntry.range (entry : VirtualMemoryMapEntry) : Nat × Nat :=
  pageRange (alignRange entry.virtualAddress entry.size)

theorem VirtualMemoryMapEntry.range_eq {offset : Nat}
    (aligned : alignRange entry.virtualAddress entry.size = some (start, size, offset)) :
    entry.range = (size / page4K, start) :=
  congrArg pageRange aligned

def Mappings.setAll (live : Mappings) (pages : List Nat) (mapping : Option Mapping) : Mappings :=
  fun v => if v ∈ pages then mapping else live v

theorem Mappings.setAll_nil (live : Mappings) (mapping : Option Mapping) :
    live.setAll [] mapping = live := by
  funext v
  simp [Mappings.setAll]

theorem Mappings.setAll_cons (live : Mappings) (page : Nat) (rest : List Nat)
    (mapping : Option Mapping) :
    live.setAll (page :: rest) mapping = (live.set page mapping).setAll rest mapping := by
  funext v
  by_cases same : v = page <;> by_cases mem : v ∈ rest <;>
    simp [Mappings.setAll, Mappings.set, same]

section
variable {root : Nat} {flags : PageFlags} {p p' : Physical} {live part : Mappings}
variable {physicalAddress : Option Nat}

/-- A part of the mappings stays a part when the same page is set in both. -/
theorem Mappings.set_inside (inside : ∀ v m, part v = some m → live v = some m)
    (page : Nat) (mapping : Option Mapping) (v : Nat) (m : Mapping)
    (here : part.set page mapping v = some m) : live.set page mapping v = some m := by
  rw [Mappings.set_eq_some_iff] at here ⊢
  exact here.imp_right fun ⟨other, here⟩ => ⟨other, inside v m here⟩

/-- Mapping a range keeps the flags above the pages of any part of the mappings. -/
theorem Base.covered_mapPages
    (base : Base root p live) (inside : ∀ v m, part v = some m → live v = some m)
    (covered : Covered root p part)
    (done : VirtualMemoryMapper.mapPages root flags n virtualAddress physicalAddress p = some p') :
    Covered root p' (part.setAll (pagesFrom n virtualAddress)
      (some ⟨flags, physicalAddress.isNone⟩)) := by
  induction n generalizing virtualAddress physicalAddress p live part with
  | zero =>
    cases done
    exact covered
  | succ n ih =>
    obtain ⟨q, first, rest⟩ := mapPages_succ.mp done
    have covered' := ih (base.mapPage first) (Mappings.set_inside inside _ _)
      (base.covered_mapPage first inside covered) rest
    rw [Option.isNone_map] at covered'
    rw [pagesFrom, Mappings.setAll_cons]
    exact covered'

/-- A range mapped. -/
theorem Base.mapPages (base : Base root p live)
    (done : mapPages root flags n virtualAddress physicalAddress p = some p') :
    Base root p' (live.setAll (pagesFrom n virtualAddress)
      (some ⟨flags, physicalAddress.isNone⟩)) := by
  induction n generalizing virtualAddress physicalAddress p live with
  | zero =>
    cases done
    exact base
  | succ n ih =>
    obtain ⟨q, first, rest⟩ := mapPages_succ.mp done
    have base' := ih (base.mapPage first) rest
    rw [Option.isNone_map] at base'
    rw [pagesFrom, Mappings.setAll_cons]
    exact base'

/-- The contract of `unmap` for a range still holds for the rest of it after the first page. -/
theorem contract_after
    (contract : ∀ page ∈ pagesFrom (n + 1) virtualAddress, ∀ m, live page = some m →
      isAllocated = true → m.allocated = true) :
    ∀ page ∈ pagesFrom n (wrapAdd virtualAddress page4K), ∀ m,
      live.set (pageNumber virtualAddress) none page = some m → isAllocated = true →
      m.allocated = true := by
  intro page mem m here
  exact contract page (by simp [pagesFrom, mem]) m (Mappings.set_none_eq_some_iff.mp here).2

/-- A range unmapped: the bookkeeping goes on, and the entries above level 1 that lead to a page of
the range lose the flags. -/
theorem Base.unmapPages (base : Base root p live)
    (contract : ∀ page ∈ pagesFrom n virtualAddress, ∀ m, live page = some m →
      isAllocated = true → m.allocated = true)
    (done : unmapPages root flags isAllocated n virtualAddress p = some p') :
    Base root p' (live.setAll (pagesFrom n virtualAddress) none) ∧
      ∀ q, q.length ≤ 3 → pteAt root p' q =
        if ∃ page ∈ pagesFrom n virtualAddress, q ∈ upperPaths page then
          (pteAt root p q).map (· &&& ~~~flags.bits)
        else pteAt root p q := by
  induction n generalizing virtualAddress p live with
  | zero =>
    cases done
    rw [pagesFrom, Mappings.setAll_nil]
    exact ⟨base, by simp⟩
  | succ n ih =>
    obtain ⟨q, first, rest⟩ := unmapPages_succ.mp done
    obtain ⟨base', upper⟩ := base.unmapPage (contract _ (by simp [pagesFrom])) first
    obtain ⟨base'', upper'⟩ := ih base' (contract_after contract) rest
    rw [pagesFrom, Mappings.setAll_cons]
    refine ⟨base'', fun path short => ?_⟩
    rw [upper' path short, upper path short]
    by_cases here : path ∈ upperPaths (pageNumber virtualAddress) <;>
      by_cases later : ∃ page ∈ pagesFrom n (wrapAdd virtualAddress page4K),
        path ∈ upperPaths page <;>
      simp [here, Function.comp_def, BitVec.and_assoc]

end

/-! ## The ranges of `map` and `unmap` -/

theorem alignDown_page (address : Nat) :
    alignDown address page4K = page4K * (address / page4K) := by
  unfold alignDown page4K
  omega

theorem alignRange_start {address aligned offset : Nat}
    (done : alignRange address size = some (start, aligned, offset)) :
    start = page4K * (address / page4K) := by
  simp only [alignRange, Option.ite_none_right_eq_some, Option.some.injEq, Prod.mk.injEq] at done
  rw [← done.2.1, alignDown_page]

/-- What a completed `map` has done: the loop over the pages of the entry. -/
theorem map_eq_some {p p' : Physical} (done : vm.map entry p = some p') :
    ∃ n k physicalAddress, entry.range = (n, page4K * k) ∧
      entry.pages = pagesFrom n (page4K * k) ∧
      physicalAddress = entry.physicalAddress.map (fun address => alignDown address page4K) ∧
      mapPages vm.pageMapL4 entry.flags n (page4K * k) physicalAddress p = some p' := by
  simp only [VirtualMemoryMapper.map, bind_eq_some, Prod.exists,
    Option.ite_none_right_eq_some] at done
  obtain ⟨start, size, offset, aligned, -, physicalAddress, alignedPhysical, looped⟩ := done
  have first := alignRange_start aligned
  refine ⟨size / page4K, entry.virtualAddress / page4K, physicalAddress, ?_, ?_, ?_, ?_⟩
  · rw [VirtualMemoryMapEntry.range_eq aligned, first]
  · rw [VirtualMemoryMapEntry.pages_eq aligned, first]
  · unfold alignPhysical at alignedPhysical
    split at alignedPhysical
    · rename_i none
      rw [none, ← Option.some.inj alignedPhysical]
      rfl
    · rename_i address given
      simp only [bind_eq_some, Prod.exists, Option.ite_none_right_eq_some,
        Option.some.injEq] at alignedPhysical
      obtain ⟨start', size', offset', aligned', -, rfl⟩ := alignedPhysical
      rw [given, Option.map_some, alignRange_start aligned', alignDown_page]
  · rw [← first]
    exact looped

/-- What a completed `unmap` has done: the loop over the pages of the entry. -/
theorem unmap_eq_some {p p' : Physical} (done : vm.unmap entry isAllocated p = some p') :
    ∃ n start, entry.pages = pagesFrom n start ∧
      unmapPages vm.pageMapL4 entry.flags isAllocated n start p = some p' := by
  rw [unmap, Option.ite_none_right_eq_some] at done
  simp only [bind_eq_some, Prod.exists] at done
  obtain ⟨-, start, size, offset, aligned, looped⟩ := done
  exact ⟨size / page4K, start, VirtualMemoryMapEntry.pages_eq aligned, looped⟩

/-! ## The walk of the processor -/

/-- The flags of the entries from a table on, if all of them are present: whether all have
`PTE_WRITABLE` and whether all have `PTE_USER`. -/
def walkFlags (p : Physical) (table : Nat) : List Nat → Option (Bool × Bool)
  | [] => some (true, true)
  | index :: rest =>
    let entry := p.memory table index
    if isPresent entry then
      (walkFlags p (tableOf entry) rest).map fun below =>
        (isWritable entry && below.1, isUserPage entry && below.2)
    else none

/-- The effective permission of a page. -/
def permission (root : Nat) (p : Physical) (page : Nat) : Option (Bool × Bool) :=
  walkFlags p root [index4 page, index3 page, index2 page, index1 page]

section
variable {root v : Nat} {p : Physical} {live : Mappings}

theorem pteAt_below {e : BitVec 64} (here : pteAt root p path = some e) (nonempty : path ≠ [])
    (present : isPresent e = true) (i : Nat) :
    pteAt root p (i :: path) = some (p.memory (tableOf e) i) := by
  cases path with
  | nil => exact absurd rfl nonempty
  | cons j path =>
    exact entryAt_of_nodeAt (nodeAt_eq_some_iff.mpr ⟨e, here, childTable_of_present present⟩)

/-- The effective permission of a mapped page, by its entries. -/
theorem Base.permission_eq (base : Base root p live) {m : Mapping}
    (mapped : live v = some m) : ∃ e4 e3 e2, pteAt root p [index4 v] = some e4 ∧
      pteAt root p [index3 v, index4 v] = some e3 ∧
      pteAt root p [index2 v, index3 v, index4 v] = some e2 ∧
      permission root p v =
        some (isWritable e4 && (isWritable e3 && (isWritable e2 && m.flags.writable)),
          isUserPage e4 && (isUserPage e3 && (isUserPage e2 && m.flags.user))) := by
  obtain ⟨address, leaf⟩ := base.mapped v m mapped
  have upper := base.upper_present mapped
  obtain ⟨e4, at4, present4⟩ := upper [index4 v] (by simp [upperPaths])
  obtain ⟨e3, at3, present3⟩ := upper [index3 v, index4 v] (by simp [upperPaths])
  obtain ⟨e2, at2, present2⟩ := upper [index2 v, index3 v, index4 v] (by simp [upperPaths])
  have first : p.memory root (index4 v) = e4 := Option.some.inj at4
  have second : p.memory (tableOf e4) (index3 v) = e3 := by
    rw [pteAt_below at4 (by simp) present4] at at3
    exact Option.some.inj at3
  have third : p.memory (tableOf e3) (index2 v) = e2 := by
    rw [pteAt_below at3 (by simp) present3] at at2
    exact Option.some.inj at2
  have fourth : p.memory (tableOf e2) (index1 v) = leafEntry address m.flags := by
    rw [leafPath, pteAt_below at2 (by simp) present2] at leaf
    exact Option.some.inj leaf
  obtain ⟨writable, user⟩ := leafEntry_flags address m.flags
  refine ⟨e4, e3, e2, at4, at3, at2, ?_⟩
  simp only [permission, walkFlags, first, second, third, fourth, present4, present3, present2,
    leafEntry_present, writable, user, if_true, Option.map_some, Bool.and_true]

/-- A walk that ends has found a present entry at the end of its path. -/
theorem walkFlags_present {rest : List Nat} {table : Nat} {found : Bool × Bool}
    (nonempty : rest ≠ []) (here : tableAt root p path = some table)
    (walked : walkFlags p table rest = some found) :
    ∃ e, pteAt root p (rest.reverse ++ path) = some e ∧ isPresent e = true := by
  induction rest generalizing table path found with
  | nil => exact absurd rfl nonempty
  | cons i rest ih =>
    obtain ⟨present, walked⟩ := Option.ite_none_right_eq_some.mp walked
    have entry : pteAt root p (i :: path) = some (p.memory table i) := entryAt_of_nodeAt here
    cases rest with
    | nil => exact ⟨_, by simpa using entry, present⟩
    | cons j rest =>
      obtain ⟨below, walked, -⟩ := Option.map_eq_some_iff.mp walked
      have next : tableAt root p (i :: path) = some (tableOf (p.memory table i)) :=
        nodeAt_eq_some_iff.mpr ⟨_, entry, childTable_of_present present⟩
      obtain ⟨e, there, present'⟩ := ih (by simp) next walked
      exact ⟨e, by simpa using there, present'⟩

/-- A page that is not mapped has no permission. -/
theorem Base.permission_unmapped (base : Base root p live) (small : v < 2 ^ 36)
    (absent : live v = none) : permission root p v = none := by
  cases walked : permission root p v with
  | none => rfl
  | some found =>
    obtain ⟨e, there, present⟩ :=
      walkFlags_present (by simp) (nodeAt_root root p) walked
    rw [base.unmapped v e small absent there] at present
    simp [isPresent] at present

end

/-! ## Runs -/

/-- A mapper and the memory its tables are in, with the latest mapping of each page. -/
structure AddressSpace where
  vm : VirtualMemoryMapper
  physical : Physical
  live : Mappings

namespace AddressSpace
variable {s : AddressSpace} {p : Physical}

inductive Call where
  | map (entry : VirtualMemoryMapEntry)
  | unmap (entry : VirtualMemoryMapEntry) (isAllocated : Bool)
  deriving DecidableEq

/-- The contract of `unmap`: the range is mapped, and to pages that `map` has allocated if they are
to be freed. -/
def Unmappable (live : Mappings) (isAllocated : Bool) (pages : List Nat) : Prop :=
  ∀ page ∈ pages, (live page).any (fun m => !isAllocated || m.allocated) = true

instance (live : Mappings) (isAllocated : Bool) (pages : List Nat) :
    Decidable (Unmappable live isAllocated pages) :=
  inferInstanceAs (Decidable (∀ page ∈ pages, _))

def step (s : AddressSpace) : Call → Option AddressSpace
  | .map entry => do
    let physical ← s.vm.map entry s.physical
    some { s with
      physical := physical
      live := s.live.setAll entry.pages (some ⟨entry.flags, entry.physicalAddress.isNone⟩) }
  | .unmap entry isAllocated =>
    if Unmappable s.live isAllocated entry.pages then do
      let physical ← s.vm.unmap entry isAllocated s.physical
      some { s with physical := physical, live := s.live.setAll entry.pages none }
    else none

/-- A new mapper, with an empty table of level 4. -/
def Fresh (s : AddressSpace) : Prop :=
  ∃ p, PhysicalPageAllocator.Wf p.allocator ∧
    new p = some ({ s.vm with isUser := false }, s.physical) ∧ s.live = fun _ => none

/-- Every page has the permission of its latest mapping, and none if it is not mapped. -/
def Permissions (s : AddressSpace) : Prop :=
  ∀ page, page < 2 ^ 36 → permission s.vm.pageMapL4 s.physical page =
    (s.live page).map fun m => (m.flags.writable, m.flags.user)

/-- The call takes no permission from a page that stays mapped: `unmap` is not given a flag that a
mapped page outside the range has, below the same entry of level 4 as a page of the range. -/
def KeepsFlags (s : AddressSpace) : Call → Prop
  | .map _ => True
  | .unmap entry _ => ∀ v m, v ∉ entry.pages → s.live v = some m →
      (∃ page ∈ entry.pages, index4 page = index4 v) →
      ¬ (entry.flags.writable = true ∧ m.flags.writable = true) ∧
        ¬ (entry.flags.user = true ∧ m.flags.user = true)

structure Inv (s : AddressSpace) : Prop where
  base : Base s.vm.pageMapL4 s.physical s.live
  covered : Covered s.vm.pageMapL4 s.physical s.live

theorem and_eq_last (a b c d : Bool) :
    (a && (b && (c && d))) = d ↔ (d = true → a = true ∧ b = true ∧ c = true) := by
  revert a b c d
  decide

/-- With the bookkeeping in order, the permissions are right exactly if the entries above level 1
have the flags of the pages below them. -/
theorem permissions_iff_covered (base : Base s.vm.pageMapL4 s.physical s.live) :
    Permissions s ↔ Covered s.vm.pageMapL4 s.physical s.live := by
  constructor
  · intro permissions v m mapped path mem e there
    obtain ⟨e4, e3, e2, at4, at3, at2, effective⟩ := base.permission_eq mapped
    have allowed := permissions v (base.small v m mapped)
    rw [effective, mapped] at allowed
    simp only [Option.map_some, Option.some.injEq, Prod.mk.injEq, and_eq_last] at allowed
    obtain ⟨writable, user⟩ := allowed
    simp only [upperPaths, List.mem_cons, List.not_mem_nil, or_false] at mem
    rcases mem with rfl | rfl | rfl
    · rw [at4] at there
      exact Option.some.inj there ▸ ⟨fun w => (writable w).1, fun u => (user u).1⟩
    · rw [at3] at there
      exact Option.some.inj there ▸ ⟨fun w => (writable w).2.1, fun u => (user u).2.1⟩
    · rw [at2] at there
      exact Option.some.inj there ▸ ⟨fun w => (writable w).2.2, fun u => (user u).2.2⟩
  · intro covered v small
    cases mapped : s.live v with
    | none => exact base.permission_unmapped small mapped
    | some m =>
      obtain ⟨e4, e3, e2, at4, at3, at2, effective⟩ := base.permission_eq mapped
      have covers4 := covered v m mapped _ (by simp [upperPaths]) e4 at4
      have covers3 := covered v m mapped _ (by simp [upperPaths]) e3 at3
      have covers2 := covered v m mapped _ (by simp [upperPaths]) e2 at2
      rw [effective]
      simp only [Option.map_some, Option.some.injEq, Prod.mk.injEq, and_eq_last]
      exact ⟨fun w => ⟨covers4.1 w, covers3.1 w, covers2.1 w⟩,
        fun u => ⟨covers4.2 u, covers3.2 u, covers2.2 u⟩⟩

/-! ### One call -/

theorem base_of_fresh (fresh : Fresh s) : Base s.vm.pageMapL4 s.physical s.live := by
  obtain ⟨p, wf, made, empty⟩ := fresh
  simp only [new, allocTable, bind_eq_some, Prod.exists, Option.some.injEq, Prod.mk.injEq] at made
  obtain ⟨root, q, ⟨page, q', allocated, rootEq, rfl⟩, vmEq, rfl⟩ := made
  obtain ⟨wf', absent, freeable⟩ := wf.alloc allocated
  obtain ⟨above, frame⟩ := isFrame_of_freeable wf' freeable
  have rootIs : s.vm.pageMapL4 = virtual2physical page := by
    have := congrArg VirtualMemoryMapper.pageMapL4 vmEq
    rw [← this, rootEq]
  have zero : ∀ i, s.physical.memory s.vm.pageMapL4 i = 0#64 := by
    intro i
    rw [(PhysicalPageAllocator.allocZeroed_spec allocated).2.1, rootIs]
    simp [PhysicalMemory.fill]
  -- no entry leads on, so the root is the only table
  have only : ∀ path table, tableAt s.vm.pageMapL4 s.physical path = some table →
      path = [] ∧ table = s.vm.pageMapL4 := by
    intro path
    induction path with
    | nil => exact fun table here => ⟨rfl, (Option.some.inj here).symm⟩
    | cons i path ih =>
      intro table here
      obtain ⟨e, there, leads⟩ := nodeAt_eq_some_iff.mp here
      simp only [entryAt, Option.map_eq_some_iff] at there
      obtain ⟨n, before, rfl⟩ := there
      rw [(ih n before).2, zero, childTable_zero] at leads
      simp at leads
  have noLeaf : ∀ v e, pteAt s.vm.pageMapL4 s.physical (leafPath v) ≠ some e := by
    intro v e there
    simp only [leafPath, entryAt, Option.map_eq_some_iff] at there
    obtain ⟨n, here, -⟩ := there
    exact absurd (only _ n here).1 (by simp)
  refine ⟨⟨?_, ?_, ?_, wf'⟩, ?_, ?_, ?_, ?_, ?_⟩
  · intro a b n _ _ atA atB
    rw [(only a n atA).1, (only b n atB).1]
  · intro path table _ here
    rw [(only path table here).2, rootIs]
    refine ⟨frame, ?_⟩
    rw [physical2virtual_virtual2physical above]
    exact absent
  · intro path e _ there
    cases path with
    | nil => simp [entryAt] at there
    | cons i path =>
      simp only [entryAt, Option.map_eq_some_iff] at there
      obtain ⟨n, here, rfl⟩ := there
      rw [(only path n here).2, zero]
      decide
  · simp [empty]
  · simp [empty]
  · exact fun v e _ _ there => absurd there (noLeaf v e)
  · simp [empty]
  · simp [empty]

theorem map_step (base : Base s.vm.pageMapL4 s.physical s.live)
    (done : s.vm.map entry s.physical = some p) :
    Base s.vm.pageMapL4 p
      (s.live.setAll entry.pages (some ⟨entry.flags, entry.physicalAddress.isNone⟩)) ∧
    (Covered s.vm.pageMapL4 s.physical s.live → Covered s.vm.pageMapL4 p
      (s.live.setAll entry.pages (some ⟨entry.flags, entry.physicalAddress.isNone⟩))) := by
  obtain ⟨n, k, physicalAddress, -, pages, aligned, looped⟩ := map_eq_some done
  have given : physicalAddress.isNone = entry.physicalAddress.isNone := by
    rw [aligned, Option.isNone_map]
  rw [pages, ← given]
  exact ⟨base.mapPages looped,
    fun covered => base.covered_mapPages (fun _ _ here => here) covered looped⟩

theorem index4_eq_of_mem {a b : Nat} (memberA : path ∈ upperPaths a)
    (memberB : path ∈ upperPaths b) : index4 a = index4 b := by
  have last : ∀ v, path ∈ upperPaths v → path.getLast? = some (index4 v) := by
    intro v mem
    simp only [upperPaths, List.mem_cons, List.not_mem_nil, or_false] at mem
    rcases mem with rfl | rfl | rfl <;> rfl
  have same := (last a memberA).symm.trans (last b memberB)
  exact Option.some.inj same

theorem covers_and_not_bits {entry : BitVec 64} {flags f : PageFlags} :
    Covers (entry &&& ~~~flags.bits) f ↔ Covers entry f ∧
      ¬ (flags.writable = true ∧ f.writable = true) ∧ ¬ (flags.user = true ∧ f.user = true) := by
  unfold Covers
  simp only [isWritable_and_not_bits, isUserPage_and_not_bits]
  cases flags.writable <;> cases flags.user <;> cases f.writable <;> cases f.user <;> simp

theorem unmap_step (base : Base s.vm.pageMapL4 s.physical s.live)
    (contract : Unmappable s.live isAllocated entry.pages)
    (done : s.vm.unmap entry isAllocated s.physical = some p) :
    Base s.vm.pageMapL4 p (s.live.setAll entry.pages none) ∧
      (Covered s.vm.pageMapL4 s.physical s.live →
        (Covered s.vm.pageMapL4 p (s.live.setAll entry.pages none) ↔
          KeepsFlags s (.unmap entry isAllocated))) := by
  obtain ⟨n, start, pages, looped⟩ := unmap_eq_some done
  have contract' : ∀ page ∈ pagesFrom n start, ∀ m, s.live page = some m →
      isAllocated = true → m.allocated = true := by
    intro page mem m here allocated
    have := contract page (pages ▸ mem)
    simpa [here, allocated] using this
  obtain ⟨base', upper⟩ := base.unmapPages contract' looped
  rw [← pages] at base' upper
  refine ⟨base', fun covered => ⟨?_, ?_⟩⟩
  · rintro covered' v m outside mapped ⟨page, mem, same⟩
    obtain ⟨e, there, -⟩ := base.upper_present mapped [index4 v] (by simp [upperPaths])
    have shared : ∃ page ∈ entry.pages, [index4 v] ∈ upperPaths page :=
      ⟨page, mem, by simp [upperPaths, same]⟩
    have after := upper [index4 v] (by simp)
    rw [if_pos shared, there, Option.map_some] at after
    have still : s.live.setAll entry.pages none v = some m := by
      simp [Mappings.setAll, outside, mapped]
    exact (covers_and_not_bits.mp (covered' v m still [index4 v] (by simp [upperPaths]) _ after)).2
  · intro keeps v m still path mem e' after
    have outside : v ∉ entry.pages := by
      intro inside
      simp [Mappings.setAll, inside] at still
    have mapped : s.live v = some m := by simpa [Mappings.setAll, outside] using still
    obtain ⟨e, there, -⟩ := base.upper_present mapped path mem
    have covers := covered v m mapped path mem e there
    rw [upper path (length_of_mem_upperPaths mem), there] at after
    split at after
    · rename_i shared
      obtain ⟨page, inside, mem'⟩ := shared
      rw [← Option.some.inj after]
      exact covers_and_not_bits.mpr ⟨covers, keeps v m outside mapped
        ⟨page, inside, index4_eq_of_mem mem' mem⟩⟩
    · exact Option.some.inj after ▸ covers

theorem base_step {t : AddressSpace} {c : Call} (base : Base s.vm.pageMapL4 s.physical s.live)
    (taken : step s c = some t) :
    Base t.vm.pageMapL4 t.physical t.live ∧
      (Covered s.vm.pageMapL4 s.physical s.live →
        (Covered t.vm.pageMapL4 t.physical t.live ↔ KeepsFlags s c)) := by
  cases c with
  | map entry =>
    obtain ⟨p, done, rfl⟩ := bind_some_eq_some.mp taken
    obtain ⟨base', covered'⟩ := map_step base done
    exact ⟨base', fun covered => ⟨fun _ => trivial, fun _ => covered' covered⟩⟩
  | unmap entry isAllocated =>
    obtain ⟨contract, taken⟩ := Option.ite_none_right_eq_some.mp taken
    obtain ⟨p, done, rfl⟩ := bind_some_eq_some.mp taken
    exact unmap_step base contract done

/-- The runs of `map` and `unmap` on a new mapper in which no `unmap` is given a flag that a page
which stays mapped has below the same entry of level 4. -/
abbrev ReachableKeepingFlags : AddressSpace → Prop :=
  Reachable (fun s c t => step s c = some t) KeepsFlags Fresh

theorem inv_of_reachable : ∀ s, ReachableKeepingFlags s → Inv s := by
  apply Reachable.invariant
  · intro s fresh
    refine ⟨base_of_fresh fresh, fun v m mapped => ?_⟩
    obtain ⟨-, -, -, empty⟩ := fresh
    simp [empty] at mapped
  · intro s c t inv keeps taken
    obtain ⟨base, covered⟩ := base_step inv.base taken
    exact ⟨base, (covered inv.covered).mpr keeps⟩

/-- In every state of such a run each page has the permission of its latest mapping, and a call
breaks this exactly if it is an `unmap` that is given such a flag. -/
theorem permissions_iff_keepsFlags (s : AddressSpace) (reached : ReachableKeepingFlags s) :
    Permissions s ∧ ∀ c t, step s c = some t → (Permissions t ↔ KeepsFlags s c) := by
  have inv := inv_of_reachable s reached
  refine ⟨(permissions_iff_covered inv.base).mpr inv.covered, ?_⟩
  intro c t taken
  obtain ⟨base, covered⟩ := base_step inv.base taken
  rw [permissions_iff_covered base]
  exact covered inv.covered

/-- A machine with twelve free pages. -/
def emptyPhysical : Physical where
  memory := fun _ _ => 0#64
  allocator :=
    { freeList := (List.range 12).map fun k => kernelBase + page4K * k
      highMemStart := 0
      start := kernelBase
      «end» := kernelEnd
      freeCount := 0
      usedCount := 0 }

def emptySpace : AddressSpace where
  vm := ⟨0, false⟩
  physical := ((new emptyPhysical).getD (⟨0, false⟩, emptyPhysical)).2
  live := fun _ => none

theorem fresh_emptySpace : Fresh emptySpace :=
  ⟨emptyPhysical, ⟨by decide +kernel, by decide +kernel, by decide +kernel, by decide +kernel⟩, rfl,
    rfl⟩

/-- A page that user code may write. -/
def onePage (page : Nat) : VirtualMemoryMapEntry :=
  ⟨page4K * page, none, page4K, ⟨true, true, false, false⟩⟩

/-- Two pages below different entries of level 4: the second one keeps its permission when the
first one is unmapped. -/
theorem permissions_unmap_apart : ∃ s t, ReachableKeepingFlags s ∧
    step s (.unmap (onePage 1) true) = some t ∧ Permissions t := by
  have runs : ((step emptySpace (.map (onePage 1))).bind fun s =>
      (step s (.map (onePage (2 ^ 27)))).bind fun s =>
        step s (.unmap (onePage 1) true)).isSome = true := by decide +kernel
  obtain ⟨t, run⟩ := Option.isSome_iff_exists.mp runs
  simp only [Option.bind_eq_some_iff] at run
  obtain ⟨first, mapped, second, mapped', unmapped⟩ := run
  have reached : ReachableKeepingFlags second :=
    .call (.map (onePage (2 ^ 27))) (.call (.map (onePage 1)) (.start fresh_emptySpace) trivial
      mapped) trivial mapped'
  refine ⟨second, t, reached, unmapped, ?_⟩
  refine ((permissions_iff_keepsFlags second reached).2 _ _ unmapped).mpr ?_
  simp only [step, bind_eq_some, Option.some.injEq] at mapped mapped'
  obtain ⟨p, done, rfl⟩ := mapped
  obtain ⟨p', done', rfl⟩ := mapped'
  have pages : (onePage 1).pages = [1] ∧ (onePage (2 ^ 27)).pages = [2 ^ 27] := by decide +kernel
  rintro v m outside live ⟨page, mem, same⟩
  simp only [pages.1, pages.2, Mappings.setAll, List.mem_singleton, emptySpace] at *
  split at live
  · rename_i other
    rw [other, mem] at same
    exact absurd same (by decide)
  · simp at live

/-- Two pages below the same entry of level 4: unmapping the first one with its flags takes them
from the second one. -/
theorem permission_lost_on_unmap :
    ¬ ∀ s, Reachable (fun s c t => step s c = some t) (fun _ _ => True) Fresh s →
      Permissions s := by
  intro permissions
  obtain ⟨t, reached, lost, live⟩ : ∃ t, Reachable (fun s c t => step s c = some t)
      (fun _ _ => True) Fresh t ∧ permission t.vm.pageMapL4 t.physical 2 = some (false, false) ∧
        t.live 2 = some ⟨⟨true, true, false, false⟩, true⟩ :=
    Reachable.exists_of_run fresh_emptySpace
      [.map (onePage 1), .map (onePage 2), .unmap (onePage 1) true] (by decide +kernel)
  have allowed := permissions t reached 2 (by decide)
  rw [lost, live] at allowed
  simp at allowed

end AddressSpace

end Emerald.MemoryManagement
