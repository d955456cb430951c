
import Emerald.MemoryManagement.Proofs.Translation

/-!
# Kernel mappings are shared

A clone of an address space has a table of level 3 of its own for the kernel, a copy of the entries
that were there when it was made. Below these entries it shares the kernel's tables, so what the
kernel maps later is seen in it as long as no new entry of level 3 is needed.
-/

namespace Emerald.MemoryManagement

open VirtualMemoryMapper

variable {virtualAddress page n : Nat} {isAllocated : Bool} {vm : VirtualMemoryMapper}
  {entry : VirtualMemoryMapEntry}

/-- The pages of the kernel that every address space has: those below the entries `0x1FE` and
`0x1FF` of the kernel's table of level 3. -/
def isSharedPage (page : Nat) : Bool :=
  index4 page == kernelL4Index && decide (kernelL3IndexStart ≤ index3 page)

/-- A page that is neither free nor a table of the tree, and that no mapping has allocated. -/
structure Reserved (root : Nat) (p : Physical) (live : Mappings) (page : Nat) : Prop extends
    Outside root p page where
  unmapped : ∀ v m e, live v = some m → m.allocated = true → pteAt root p (leafPath v) = some e →
    tableOf e ≠ page

section
variable {root : Nat} {flags : PageFlags} {p p' : Physical} {live : Mappings}
variable {physicalAddress : Option Nat}

theorem tableAt_one (i : Nat) : tableAt root p [i] = childTable (p.memory root i) := rfl

theorem tableAt_two (i j : Nat) :
    tableAt root p [j, i] = (tableAt root p [i]).bind fun table => childTable (p.memory table j) :=
  rfl

/-! ## What the kernel's calls leave alone -/

theorem Reserved.mapPage (reserved : Reserved root p live page) (base : Base root p live)
    (done : VirtualMemoryMapper.mapPage root flags virtualAddress physicalAddress p = some p') :
    Reserved root p' (live.set (pageNumber virtualAddress)
      (some ⟨flags, physicalAddress.isNone⟩)) page := by
  obtain ⟨address, -, -, leaf, -, -, -, outside, fresh⟩ := mapPage_spec base.tree done
  refine ⟨outside page reserved.toOutside, ?_⟩
  intro v m e here allocated there
  rcases Mappings.set_eq_some_iff.mp here with ⟨rfl, same⟩ | ⟨other, here⟩
  · cases same
    obtain ⟨new, others⟩ := fresh (Option.isNone_iff_eq_none.mp allocated)
    rw [leaf] at there
    rw [← Option.some.inj there, tableOf_leafEntry new.frame]
    exact (others page reserved.toOutside).symm
  · rw [base.leaf_mapPage done other here] at there
    exact reserved.unmapped v m e here allocated there

/-- The loop of `map`: reserved pages keep their contents, and so do the tables that are there. -/
theorem mapPages_frame (base : Base root p live)
    (done : mapPages root flags n virtualAddress physicalAddress p = some p') :
    (∀ page, Reserved root p live page →
      Reserved root p' (live.setAll (pagesFrom n virtualAddress)
        (some ⟨flags, physicalAddress.isNone⟩)) page ∧
        ∀ j, p'.memory page j = p.memory page j) ∧
      ∀ q, q.length ≤ 3 → (∀ v ∈ pagesFrom n virtualAddress, q ∈ upperPaths v →
        (tableAt root p q).isSome = true) → tableAt root p' q = tableAt root p q := by
  induction n generalizing virtualAddress physicalAddress p live with
  | zero =>
    cases done
    exact ⟨fun page reserved => ⟨reserved, fun _ => rfl⟩, fun _ _ _ => rfl⟩
  | succ n ih =>
    obtain ⟨p1, first, rest⟩ := mapPages_succ.mp done
    obtain ⟨tables, memory⟩ := mapPage_frame base.tree first
    obtain ⟨later, tables'⟩ := ih (base.mapPage first) rest
    rw [pagesFrom, Mappings.setAll_cons]
    rw [Option.isNone_map] at later
    constructor
    · intro page reserved
      obtain ⟨reserved', same⟩ := later page (reserved.mapPage base first)
      exact ⟨reserved', fun j => (same j).trans (memory page reserved.toOutside j)⟩
    · intro q short there
      have atFirst := tables q short (there _ List.mem_cons_self)
      rw [tables' q short, atFirst]
      intro v mem touched
      rw [atFirst]
      exact there v (List.mem_cons_of_mem _ mem) touched

theorem Reserved.unmapPage (reserved : Reserved root p live page) (base : Base root p live)
    (contract : ∀ m, live (pageNumber virtualAddress) = some m → isAllocated = true →
      m.allocated = true)
    (done : VirtualMemoryMapper.unmapPage root flags isAllocated virtualAddress p = some p') :
    Reserved root p' (live.set (pageNumber virtualAddress) none) page ∧
      ∀ j, p'.memory page j = p.memory page j := by
  obtain ⟨e, leaf, present, -, entries, outside⟩ := unmapPage_spec base.tree
    (base.owned_of_leaf contract) done
  obtain ⟨m, found⟩ := base.mapped_of_leaf leaf present
  have apart : isAllocated = true → page ≠ tableOf e := fun allocated =>
    (reserved.unmapped _ m e found (contract m found allocated) leaf).symm
  obtain ⟨outside', same⟩ := outside page apart reserved.toOutside
  refine ⟨⟨outside', ?_⟩, same⟩
  intro v m' e' here allocated there
  obtain ⟨other, here⟩ := Mappings.set_none_eq_some_iff.mp here
  rw [entries (leafPath v) (le_refl 4),
    if_neg (leafPath_ne (base.small v m' here) (pageNumber_lt _) other),
    if_neg (fun mem => upper_ne_leaf mem rfl)] at there
  exact reserved.unmapped v m' e' here allocated there

section
variable (base : Base root p live)
  (contract : ∀ page ∈ pagesFrom n virtualAddress, ∀ m, live page = some m →
    isAllocated = true → m.allocated = true)
  (done : unmapPages root flags isAllocated n virtualAddress p = some p')
include base contract done

/-- The loop of `unmap`: reserved pages keep their contents, and no table goes away. -/
theorem unmapPages_frame :
    Base root p' (live.setAll (pagesFrom n virtualAddress) none) ∧
      (∀ page, Reserved root p live page →
        Reserved root p' (live.setAll (pagesFrom n virtualAddress) none) page ∧
          ∀ j, p'.memory page j = p.memory page j) ∧
      ∀ q, q.length ≤ 3 → tableAt root p' q = tableAt root p q := by
  obtain ⟨base', upper⟩ := base.unmapPages contract done
  refine ⟨base', ?_, ?_⟩
  · clear base' upper
    induction n generalizing virtualAddress p live with
    | zero =>
      cases done
      exact fun page reserved => ⟨reserved, fun _ => rfl⟩
    | succ n ih =>
      obtain ⟨p1, first, rest⟩ := unmapPages_succ.mp done
      have atFirst := contract _ List.mem_cons_self
      intro page reserved
      obtain ⟨reserved', same⟩ := reserved.unmapPage base atFirst first
      obtain ⟨reserved'', same'⟩ := ih (base.unmapPage atFirst first).1
        (contract_after contract) rest page reserved'
      rw [pagesFrom, Mappings.setAll_cons]
      exact ⟨reserved'', fun j => (same' j).trans (same j)⟩
  · intro q short
    refine tableAt_congr (fun nonempty => ?_)
    rw [upper q short]
    split
    · cases pteAt root p q with
      | none => rfl
      | some e => exact childTable_and_not_bits e flags
    · rfl

/-- What is unmapped was mapped. -/
theorem mapped_of_unmapPages : ∀ page ∈ pagesFrom n virtualAddress, (live page).isSome = true := by
  induction n generalizing virtualAddress p live with
  | zero => exact fun page mem => absurd mem (by simp [pagesFrom])
  | succ n ih =>
    obtain ⟨p1, first, rest⟩ := unmapPages_succ.mp done
    have atFirst := contract _ List.mem_cons_self
    have later := ih (base.unmapPage atFirst first).1 (contract_after contract) rest
    obtain ⟨e, leaf, present, -⟩ := unmapPage_spec base.tree (base.owned_of_leaf atFirst) first
    intro page mem
    by_cases same : page = pageNumber virtualAddress
    · obtain ⟨m, found⟩ := base.mapped_of_leaf leaf present
      rw [same, found]
      rfl
    · have still := later page ((List.mem_cons.mp mem).resolve_left same)
      rwa [Mappings.set_of_ne _ _ same] at still

end

/-- A call on the kernel's mapper: the bookkeeping goes on, and reserved pages keep their
contents. -/
structure Changes (root : Nat) (p : Physical) (live : Mappings) (p' : Physical)
    (live' : Mappings) : Prop where
  base : Base root p' live'
  reserved : ∀ page, Reserved root p live page →
    Reserved root p' live' page ∧ ∀ j, p'.memory page j = p.memory page j

theorem map_changes (base : Base vm.pageMapL4 p live) (done : vm.map entry p = some p') :
    Changes vm.pageMapL4 p live p'
      (live.setAll entry.pages (some ⟨entry.flags, entry.physicalAddress.isNone⟩)) ∧
      ∀ q, q.length ≤ 3 → (∀ v ∈ entry.pages, q ∈ upperPaths v →
        (tableAt vm.pageMapL4 p q).isSome = true) →
        tableAt vm.pageMapL4 p' q = tableAt vm.pageMapL4 p q := by
  obtain ⟨n, k, physicalAddress, -, pages, aligned, looped⟩ := map_eq_some done
  have given : physicalAddress.isNone = entry.physicalAddress.isNone := by
    rw [aligned, Option.isNone_map]
  have base' := base.mapPages looped
  obtain ⟨reserved, tables⟩ := mapPages_frame base looped
  rw [given, ← pages] at base' reserved
  rw [← pages] at tables
  exact ⟨⟨base', reserved⟩, tables⟩

theorem unmap_changes (base : Base vm.pageMapL4 p live)
    (contract : ∀ page ∈ entry.pages, ∀ m, live page = some m → isAllocated = true →
      m.allocated = true) (done : vm.unmap entry isAllocated p = some p') :
    Changes vm.pageMapL4 p live p' (live.setAll entry.pages none) ∧
      ∀ q, q.length ≤ 3 → tableAt vm.pageMapL4 p' q = tableAt vm.pageMapL4 p q := by
  obtain ⟨n, start, pages, looped⟩ := unmap_eq_some done
  rw [pages] at contract ⊢
  obtain ⟨base', reserved, tables⟩ := unmapPages_frame base contract looped
  exact ⟨⟨base', reserved⟩, tables⟩

/-- Another address space whose table of level 4 and whose table of level 3 for the kernel keep
their contents. -/
theorem tableAt_of_kept {copy : Nat} (linked : tableAt root p [kernelL4Index] = some copy)
    (sameRoot : ∀ j, p'.memory root j = p.memory root j)
    (sameCopy : ∀ j, p'.memory copy j = p.memory copy j) :
    tableAt root p' [kernelL4Index] = some copy ∧
      ∀ i, tableAt root p' [i, kernelL4Index] = tableAt root p [i, kernelL4Index] := by
  have linked' : tableAt root p' [kernelL4Index] = some copy := by
    rw [tableAt_one, sameRoot]
    exact linked
  refine ⟨linked', fun i => ?_⟩
  rw [tableAt_two, tableAt_two, linked, linked', Option.bind_some, Option.bind_some, sameCopy]

/-- A clone of any address space: the kernel's tables are as they were, the two new tables are
reserved, and the one for the kernel has the entries of the table it was copied from. -/
theorem cloneAsUser_changes {vm' : VirtualMemoryMapper} {source : Nat} (base : Base root p live)
    (here : tableAt vm.pageMapL4 p [kernelL4Index] = some source)
    (done : cloneAsUser vm p = some (vm', p')) :
    Changes root p live p' live ∧
      (∀ q, q.length ≤ 3 → tableAt root p' q = tableAt root p q) ∧
      ∃ copy, tableAt vm'.pageMapL4 p' [kernelL4Index] = some copy ∧
        Reserved root p' live vm'.pageMapL4 ∧ Reserved root p' live copy ∧
        ((∃ path, path.length ≤ 3 ∧ tableAt root p path = some source) ∨
            Reserved root p live source →
          ∀ i, i < 512 → tableAt vm'.pageMapL4 p' [i, kernelL4Index] =
            tableAt vm.pageMapL4 p [i, kernelL4Index]) := by
  obtain ⟨-, copy, q, cloned⟩ := cloneAsUser_cloned base.tree done
  have allocator := cloned.allocator
  have others := cloned.others
  have sameTree : SameTree root q p' := cloned.tree.frame (allocator ▸ cloned.tree.allocator)
    (fun path n i short there => cloned.sameEntries short there i)
    (fun path n short there => allocator ▸ (cloned.tree.tables path n short there).2)
  have tables' : ∀ path, path.length ≤ 3 → tableAt root p' path = tableAt root p path :=
    fun path short => (sameTree.tables path short).trans (cloned.tables short)
  have entries' : ∀ path, path.length ≤ 4 → pteAt root p' path = pteAt root p path :=
    fun path short => (sameTree.entries path short).trans (cloned.entries path short)
  have same : ∀ a i, a ≠ vm'.pageMapL4 → a ≠ copy → p'.memory a i = p.memory a i := by
    intro a i notRoot notCopy
    rw [cloned.memory a i notRoot notCopy, cloned.unchanged a i notRoot notCopy]
  have outside' : ∀ page, Outside root q page → Outside root p' page := fun page before =>
    sameTree.outside before (allocator ▸ before.freeable) (allocator ▸ before.used)
  have base' : Base root p' live := by
    have kept : Base root p' (live.keep fun _ => true) :=
      base.restrict sameTree.tree (fun v _ => entries' (leafPath v) (le_refl 4))
        (fun v none => by cases none) (fun page before => outside' page (others page before).1)
    exact kept
  have unowned : ∀ page, Outside root q page →
      (∀ other, Outside root p other → other ≠ page) → Reserved root p' live page := by
    intro page before ne
    refine ⟨outside' page before, ?_⟩
    intro v m e mapped allocated there
    rw [entries' (leafPath v) (le_refl 4)] at there
    exact ne _ (base.owned v m e mapped allocated there)
  refine ⟨⟨base', ?_⟩, tables', copy, cloned.linked,
    unowned _ cloned.outsideRoot (fun other before => (others other before).2.1),
    unowned _ cloned.outsideCopy (fun other before => (others other before).2.2), ?_⟩
  · intro page reserved
    obtain ⟨still, notRoot, notCopy⟩ := others page reserved.toOutside
    refine ⟨⟨outside' page still, ?_⟩, fun j => same page j notRoot notCopy⟩
    intro v m e mapped allocated there
    rw [entries' (leafPath v) (le_refl 4)] at there
    exact reserved.unmapped v m e mapped allocated there
  · intro known i small
    have notNew : source ≠ vm'.pageMapL4 ∧ source ≠ copy := by
      rcases known with ⟨path, short, there⟩ | reserved
      · exact cloned.apart short ((cloned.tables short).trans there)
      · exact (others source reserved.toOutside).2
    have leads : tableOf (p.memory vm.pageMapL4 kernelL4Index) = source :=
      (childTable_eq_some_iff.mp here).2
    rw [tableAt_two, tableAt_two, here, show tableAt vm'.pageMapL4 p' [kernelL4Index] = some copy
      from cloned.linked, Option.bind_some, Option.bind_some, cloned.copied i small, leads,
      cloned.unchanged source i notNew.1 notNew.2]

end

/-! ## Runs -/

/-- The kernel's address space, the clones made so far, and the table of level 4 in CR3. -/
structure KernelSpaces extends AddressSpace where
  clones : List VirtualMemoryMapper
  cr3 : Nat

namespace KernelSpaces
variable {p p' : Physical} {live : Mappings} {s t : KernelSpaces}

inductive Call where
  | mapKernel (entry : VirtualMemoryMapEntry)
  | unmapKernel (entry : VirtualMemoryMapEntry) (isAllocated : Bool)
  | cloneCurrentVmAsUser
  | switchToKernel
  | switchTo (clone : Nat)
  deriving DecidableEq

def step (s : KernelSpaces) : Call → Option KernelSpaces
  | .mapKernel entry => do
    let physical ← mapKernel s.vm entry s.physical
    let live := s.live.setAll entry.pages (some ⟨entry.flags, entry.physicalAddress.isNone⟩)
    some ⟨⟨s.vm, physical, live⟩, s.clones, s.cr3⟩
  | .unmapKernel entry isAllocated => do
    let physical ← unmapKernel s.vm entry isAllocated s.physical
    some ⟨⟨s.vm, physical, s.live.setAll entry.pages none⟩, s.clones, s.cr3⟩
  | .cloneCurrentVmAsUser => do
    let (clone, physical) ← cloneCurrentVmAsUser s.vm s.cr3 s.physical
    some ⟨⟨s.vm, physical, s.live⟩, s.clones ++ [clone], s.cr3⟩
  | .switchToKernel => some { s with cr3 := s.vm.pageMapL4 }
  | .switchTo clone => do
    let vm ← s.clones[clone]?
    some { s with cr3 := vm.pageMapL4 }

/-- How the calls are made: on the pages of the kernel that are shared, and `unmap_kernel` is told
to free physical pages only if `map_kernel` has allocated them. -/
def Contract (s : KernelSpaces) : Call → Prop
  | .mapKernel entry => ∀ page ∈ entry.pages, isSharedPage page = true
  | .unmapKernel entry isAllocated => (∀ page ∈ entry.pages, isSharedPage page = true) ∧
      (isAllocated = true → ∀ page ∈ entry.pages,
        (s.live page).all (fun m => m.allocated) = true)
  | _ => True

instance (s : KernelSpaces) : (c : Call) → Decidable (Contract s c)
  | .mapKernel entry => inferInstanceAs (Decidable (∀ page ∈ entry.pages, _))
  | .unmapKernel entry _ => inferInstanceAs (Decidable ((∀ page ∈ entry.pages, _) ∧
      (_ → ∀ page ∈ entry.pages, _)))
  | .cloneCurrentVmAsUser | .switchToKernel | .switchTo _ => inferInstanceAs (Decidable True)

/-- Each shared page has the same translation in the kernel's address space and in every clone. -/
def Shared (s : KernelSpaces) : Prop :=
  ∀ vm ∈ s.clones, ∀ page, isSharedPage page = true →
    translatePage vm.pageMapL4 s.physical page = translatePage s.vm.pageMapL4 s.physical page

/-- Once there are clones, the call maps only pages that the kernel's table of level 3 has an entry
for. -/
def HasEntries (s : KernelSpaces) : Call → Prop
  | .mapKernel entry => s.clones = [] ∨ ∀ page ∈ entry.pages,
      (tableAt s.vm.pageMapL4 s.physical [index3 page, index4 page]).isSome = true
  | _ => True

instance (s : KernelSpaces) : (c : Call) → Decidable (HasEntries s c)
  | .mapKernel entry => inferInstanceAs (Decidable (_ ∨ ∀ page ∈ entry.pages, _))
  | .unmapKernel _ _ | .cloneCurrentVmAsUser | .switchToKernel | .switchTo _ =>
    inferInstanceAs (Decidable True)

/-- The runs of `map` and `unmap` on a new mapper. -/
abbrev Built : AddressSpace → Prop :=
  Reachable (fun s c t => AddressSpace.step s c = some t) (fun _ _ => True) AddressSpace.Fresh

/-- The kernel's mapper after calls of `map` and `unmap` that have mapped something of the kernel's
range, before the first clone is made. -/
structure Started (s : KernelSpaces) : Prop where
  built : Built s.toAddressSpace
  kernelTable : (tableAt s.vm.pageMapL4 s.physical [kernelL4Index]).isSome = true
  clones : s.clones = []
  current : s.cr3 = s.vm.pageMapL4

structure Inv (s : KernelSpaces) : Prop where
  base : Base s.vm.pageMapL4 s.physical s.live
  kernelTable : (tableAt s.vm.pageMapL4 s.physical [kernelL4Index]).isSome = true
  tables : ∀ vm ∈ s.clones, ∃ copy, tableAt vm.pageMapL4 s.physical [kernelL4Index] = some copy ∧
    Reserved s.vm.pageMapL4 s.physical s.live vm.pageMapL4 ∧
    Reserved s.vm.pageMapL4 s.physical s.live copy
  shares : ∀ vm ∈ s.clones, ∀ i, kernelL3IndexStart ≤ i → i < 512 →
    tableAt vm.pageMapL4 s.physical [i, kernelL4Index] =
      tableAt s.vm.pageMapL4 s.physical [i, kernelL4Index]
  current : s.cr3 = s.vm.pageMapL4 ∨ ∃ vm ∈ s.clones, s.cr3 = vm.pageMapL4

theorem isSharedPage_iff : isSharedPage page = true ↔
    index4 page = kernelL4Index ∧ kernelL3IndexStart ≤ index3 page := by
  rw [isSharedPage, Bool.and_eq_true, beq_iff_eq, decide_eq_true_iff]

/-- Tables of level 2 that are shared lead to the same pages. -/
theorem Inv.shared (inv : Inv s) : Shared s := by
  intro vm mem page isShared
  obtain ⟨kernel, high⟩ := isSharedPage_iff.mp isShared
  have level2 := inv.shares vm mem (index3 page) high (index_lt page).2
  unfold translatePage leafPath
  rw [kernel]
  exact nodeAt_step (nodeAt_step level2 (fun _ _ => rfl)) (fun _ _ => rfl)

/-- The tables of level 2 of a clone stay in every call on the kernel's mapper. -/
theorem Inv.clone_kept (inv : Inv s) (changes : Changes s.vm.pageMapL4 s.physical s.live p live)
    (mem : vm ∈ s.clones) :
    (∃ copy, tableAt vm.pageMapL4 p [kernelL4Index] = some copy ∧
      Reserved s.vm.pageMapL4 p live vm.pageMapL4 ∧ Reserved s.vm.pageMapL4 p live copy) ∧
      ∀ i, tableAt vm.pageMapL4 p [i, kernelL4Index] =
        tableAt vm.pageMapL4 s.physical [i, kernelL4Index] := by
  obtain ⟨copy, linked, reservedRoot, reservedCopy⟩ := inv.tables vm mem
  obtain ⟨root', sameRoot⟩ := changes.reserved _ reservedRoot
  obtain ⟨copy', sameCopy⟩ := changes.reserved _ reservedCopy
  obtain ⟨linked', below⟩ := tableAt_of_kept linked sameRoot sameCopy
  exact ⟨⟨copy, linked', root', copy'⟩, below⟩

/-- A call on the kernel's mapper keeps the invariant if it keeps the tables of level 2. -/
theorem Inv.change (inv : Inv s) (changes : Changes s.vm.pageMapL4 s.physical s.live p live)
    (kernel : tableAt s.vm.pageMapL4 p [kernelL4Index] =
      tableAt s.vm.pageMapL4 s.physical [kernelL4Index])
    (below : s.clones ≠ [] → ∀ i, tableAt s.vm.pageMapL4 p [i, kernelL4Index] =
      tableAt s.vm.pageMapL4 s.physical [i, kernelL4Index]) :
    Inv ⟨⟨s.vm, p, live⟩, s.clones, s.cr3⟩ := by
  refine ⟨changes.base, ?_, ?_, ?_, inv.current⟩
  · show (tableAt s.vm.pageMapL4 p [kernelL4Index]).isSome = true
    rw [kernel]
    exact inv.kernelTable
  · intro vm mem
    exact (inv.clone_kept changes mem).1
  · intro vm mem i high small
    show tableAt vm.pageMapL4 p _ = tableAt s.vm.pageMapL4 p _
    rw [(inv.clone_kept changes mem).2 i, below (List.ne_nil_of_mem mem) i]
    exact inv.shares vm mem i high small

theorem mapKernel_eq_some (done : mapKernel vm entry p = some p') : vm.map entry p = some p' := by
  rw [mapKernel, Option.ite_none_right_eq_some] at done
  exact done.2

theorem unmapKernel_eq_some (done : unmapKernel vm entry isAllocated p = some p') :
    vm.unmap entry isAllocated p = some p' := by
  rw [unmapKernel, Option.ite_none_right_eq_some] at done
  exact done.2

theorem inv_mapKernel (inv : Inv s) (entries : HasEntries s (.mapKernel entry))
    (done : mapKernel s.vm entry s.physical = some p) :
    Inv ⟨⟨s.vm, p, s.live.setAll entry.pages
      (some ⟨entry.flags, entry.physicalAddress.isNone⟩)⟩, s.clones, s.cr3⟩ := by
  obtain ⟨changes, tables⟩ := map_changes inv.base (mapKernel_eq_some done)
  refine inv.change changes (tables _ (by simp) (fun _ _ _ => inv.kernelTable)) ?_
  intro cloned i
  refine tables _ (by simp) ?_
  intro v mem touched
  have there := entries.resolve_left cloned v mem
  have path : [i, kernelL4Index] = [index3 v, index4 v] := by
    simpa [upperPaths] using touched
  rwa [path]

theorem inv_unmapKernel (inv : Inv s) (contract : Contract s (.unmapKernel entry isAllocated))
    (done : unmapKernel s.vm entry isAllocated s.physical = some p) :
    Inv ⟨⟨s.vm, p, s.live.setAll entry.pages none⟩, s.clones, s.cr3⟩ := by
  have allocated : ∀ page ∈ entry.pages, ∀ m, s.live page = some m → isAllocated = true →
      m.allocated = true := by
    intro page mem m mapped freed
    have own := contract.2 freed page mem
    rwa [mapped] at own
  obtain ⟨changes, tables⟩ := unmap_changes inv.base allocated (unmapKernel_eq_some done)
  exact inv.change changes (tables _ (by simp)) (fun _ i => tables _ (by simp))

/-- The mapper that is current and the table of level 3 it has for the kernel. -/
theorem Inv.currentTable (inv : Inv s) :
    ∃ source, tableAt (getCurrentVm s.vm s.cr3).pageMapL4 s.physical [kernelL4Index] =
        some source ∧
      ((∃ path, path.length ≤ 3 ∧ tableAt s.vm.pageMapL4 s.physical path = some source) ∨
        Reserved s.vm.pageMapL4 s.physical s.live source) ∧
      ∀ i, kernelL3IndexStart ≤ i → i < 512 →
        tableAt (getCurrentVm s.vm s.cr3).pageMapL4 s.physical [i, kernelL4Index] =
          tableAt s.vm.pageMapL4 s.physical [i, kernelL4Index] := by
  have masked : ∀ address, IsFrame address → s.cr3 = address →
      (getCurrentVm s.vm s.cr3).pageMapL4 = address := by
    intro address frame same
    have kept := frame.tableOf_ofNat
    rw [getCurrentVm, same]
    unfold tableOf at kept ⊢
    rwa [BitVec.and_assoc] at kept
  rcases inv.current with kernel | ⟨vm, mem, same⟩
  · have frame := (inv.base.tree.tables [] _ (by simp) (nodeAt_root _ _)).1
    obtain ⟨source, here⟩ := Option.isSome_iff_exists.mp inv.kernelTable
    rw [masked _ frame kernel]
    exact ⟨source, here, .inl ⟨_, by simp, here⟩, fun _ _ _ => rfl⟩
  · obtain ⟨copy, linked, reservedRoot, reservedCopy⟩ := inv.tables vm mem
    rw [masked _ reservedRoot.frame same]
    exact ⟨copy, linked, .inr reservedCopy, inv.shares vm mem⟩

theorem inv_clone {clone : VirtualMemoryMapper} (inv : Inv s)
    (done : cloneCurrentVmAsUser s.vm s.cr3 s.physical = some (clone, p)) :
    Inv ⟨⟨s.vm, p, s.live⟩, s.clones ++ [clone], s.cr3⟩ := by
  obtain ⟨source, here, known, same⟩ := inv.currentTable
  obtain ⟨changes, tables, copy, linked, reservedRoot, reservedCopy, copied⟩ :=
    cloneAsUser_changes inv.base here done
  have older := inv.change changes (tables _ (by simp)) (fun _ i => tables _ (by simp))
  refine ⟨older.base, older.kernelTable, ?_, ?_, ?_⟩
  · intro vm mem
    rcases List.mem_append.mp mem with earlier | last
    · exact older.tables vm earlier
    · rw [List.mem_singleton.mp last]
      exact ⟨copy, linked, reservedRoot, reservedCopy⟩
  · intro vm mem i high small
    rcases List.mem_append.mp mem with earlier | last
    · exact older.shares vm earlier i high small
    · rw [List.mem_singleton.mp last]
      show tableAt clone.pageMapL4 p _ = tableAt s.vm.pageMapL4 p _
      rw [copied known i small, same i high small, tables _ (by simp)]
  · rcases inv.current with kernel | ⟨vm, mem, equal⟩
    · exact .inl kernel
    · exact .inr ⟨vm, List.mem_append_left _ mem, equal⟩

theorem inv_step {c : Call} (inv : Inv s) (contract : Contract s c)
    (entries : HasEntries s c) (taken : step s c = some t) : Inv t := by
  cases c with
  | mapKernel entry =>
    obtain ⟨p, done, rfl⟩ := bind_some_eq_some.mp taken
    exact inv_mapKernel inv entries done
  | unmapKernel entry isAllocated =>
    obtain ⟨p, done, rfl⟩ := bind_some_eq_some.mp taken
    exact inv_unmapKernel inv contract done
  | cloneCurrentVmAsUser =>
    simp only [step, bind_eq_some, Prod.exists] at taken
    obtain ⟨clone, p, done, taken⟩ := taken
    cases taken
    exact inv_clone inv done
  | switchToKernel =>
    cases taken
    exact ⟨inv.base, inv.kernelTable, inv.tables, inv.shares, .inl rfl⟩
  | switchTo clone =>
    obtain ⟨vm, found, rfl⟩ := bind_some_eq_some.mp taken
    exact ⟨inv.base, inv.kernelTable, inv.tables, inv.shares,
      .inr ⟨vm, List.mem_of_getElem? found, rfl⟩⟩

theorem base_of_built : ∀ s, Built s → Base s.vm.pageMapL4 s.physical s.live := by
  refine Reachable.invariant ?_ ?_
  · exact fun s fresh => AddressSpace.base_of_fresh fresh
  · exact fun s c t base _ taken => (AddressSpace.base_step base taken).1

theorem inv_of_started (started : Started s) : Inv s := by
  obtain ⟨built, kernelTable, clones, current⟩ := started
  refine ⟨base_of_built _ built, kernelTable, ?_, ?_, .inl current⟩
  · simp [clones]
  · simp [clones]

/-- The runs in which every call keeps to the contract and maps no page that needs a new entry of
level 3 once there are clones. -/
abbrev Reached : KernelSpaces → Prop :=
  Reachable (fun s c t => step s c = some t) (fun s c => Contract s c ∧ HasEntries s c) Started

theorem inv_of_reached : ∀ s, Reached s → Inv s := by
  refine Reachable.invariant ?_ ?_
  · exact fun s started => inv_of_started started
  · exact fun s c t inv allowed taken => inv_step inv allowed.1 allowed.2 taken

/-- A page that needed a new entry of level 3 is mapped in the kernel's address space and not in
the clones. -/
theorem hasEntries_of_shared (inv : Inv s)
    (contract : Contract s (.mapKernel entry)) (taken : step s (.mapKernel entry) = some t)
    (shared : Shared t) : HasEntries s (.mapKernel entry) := by
  obtain ⟨p, done, rfl⟩ := bind_some_eq_some.mp taken
  obtain ⟨changes, -⟩ := map_changes inv.base (mapKernel_eq_some done)
  cases clones : s.clones with
  | nil => exact .inl clones
  | cons vm rest =>
    refine .inr (fun page mem => ?_)
    have first : vm ∈ s.clones := by simp [clones]
    obtain ⟨kernel, high⟩ := isSharedPage_iff.mp (contract page mem)
    by_contra absent
    have missing : tableAt vm.pageMapL4 p [index3 page, index4 page] = none := by
      rw [kernel, (inv.clone_kept changes first).2,
        inv.shares vm first _ high (index_lt page).2, ← kernel]
      simpa using absent
    have unmapped : translatePage vm.pageMapL4 p page = none := by
      unfold translatePage leafPath
      rw [tableAt, nodeAt, nodeAt]
      rw [tableAt] at missing
      rw [missing]
      rfl
    have mapped : ∃ address, translatePage s.vm.pageMapL4 p page = some address := by
      obtain ⟨address, leaf⟩ := changes.base.mapped page _ (if_pos mem)
      rw [translatePage_eq, leaf]
      exact ⟨_, childTable_leafEntry _ _⟩
    obtain ⟨address, mapped⟩ := mapped
    have same := shared vm first page (contract page mem)
    rw [unmapped, mapped] at same
    cases same

/-- In every state of such a run each shared page has the same translation in the kernel's address
space and in every clone, and a call breaks this exactly if it maps a page that needs a new entry of
level 3 while there are clones. -/
theorem shared_iff_hasEntries (s : KernelSpaces) (reached : Reached s) :
    Shared s ∧ ∀ c t, Contract s c → step s c = some t → (Shared t ↔ HasEntries s c) := by
  have inv := inv_of_reached s reached
  refine ⟨inv.shared, ?_⟩
  intro c t contract taken
  refine ⟨fun shared => ?_, fun entries => (inv_step inv contract entries taken).shared⟩
  cases c with
  | mapKernel entry => exact hasEntries_of_shared inv contract taken shared
  | unmapKernel entry isAllocated | cloneCurrentVmAsUser | switchToKernel | switchTo clone =>
    exact trivial

/-! ## The boot -/

theorem built_map (built : Built ⟨vm, p, live⟩) (done : vm.map entry p = some p') :
    Built ⟨vm, p', live.setAll entry.pages
      (some ⟨entry.flags, entry.physicalAddress.isNone⟩)⟩ := by
  refine .call (.map entry) built trivial ?_
  simp only [AddressSpace.step, done]
  rfl

/-- Further mappings keep the table of level 3 for the kernel. -/
theorem built_mapEntries {entries : List VirtualMemoryMapEntry} (built : Built ⟨vm, p, live⟩)
    (kernelTable : (tableAt vm.pageMapL4 p [kernelL4Index]).isSome = true)
    (done : vm.mapEntries entries p = some p') :
    ∃ live', Built ⟨vm, p', live'⟩ ∧
      (tableAt vm.pageMapL4 p' [kernelL4Index]).isSome = true := by
  induction entries generalizing p live with
  | nil =>
    cases done
    exact ⟨live, built, kernelTable⟩
  | cons entry rest ih =>
    simp only [mapEntries, bind_eq_some] at done
    obtain ⟨q, mapped, later⟩ := done
    obtain ⟨-, tables⟩ := map_changes (base_of_built _ built) mapped
    refine ih (built_map built mapped) ?_ later
    rw [tables _ (by simp) (fun _ _ _ => kernelTable)]
    exact kernelTable

/-- A mapper that `new_kernel_vm` returns is one the runs start with. -/
theorem started_newKernelVm {rodataEnd stackGuardPage : Nat}
    (wf : PhysicalPageAllocator.Wf p.allocator)
    (done : newKernelVm rodataEnd stackGuardPage p = some (vm, p')) :
    ∃ live, Started ⟨⟨vm, p', live⟩, [], vm.pageMapL4⟩ := by
  simp only [newKernelVm, bind_eq_some, Prod.exists, Option.some.injEq, Prod.mk.injEq] at done
  obtain ⟨vm, p0, made, p2, mapped, p3, unmapped, rfl, rfl⟩ := done
  have kernel : { vm with isUser := false } = vm := by
    simp only [new, bind_eq_some] at made
    obtain ⟨table, q, -, rfl, -⟩ := made
    rfl
  have fresh : AddressSpace.Fresh ⟨vm, p0, fun _ => none⟩ := by
    refine ⟨p, wf, ?_, rfl⟩
    rw [kernel]
    exact made
  -- the low memory is mapped first and brings the table of level 3
  rw [kernelVmEntries, mapEntries, bind_eq_some] at mapped
  obtain ⟨p1, low, rest⟩ := mapped
  have builtLow := built_map (.start fresh) low
  have baseLow := base_of_built _ builtLow
  have first : pageNumber kernelBase ∈ VirtualMemoryMapEntry.pages
      ⟨kernelBase, some 0, extendedOffset, ⟨true, false, false, false⟩⟩ := by decide +kernel
  obtain ⟨e, there, present⟩ := baseLow.upper_present (if_pos first) [kernelL4Index] (by decide)
  have kernelTable : (tableAt vm.pageMapL4 p1 [kernelL4Index]).isSome = true := by
    rw [tableAt, nodeAt_eq_some_iff.mpr ⟨e, there, childTable_of_present present⟩]
    rfl
  obtain ⟨live, built, kernelTable⟩ := built_mapEntries builtLow kernelTable rest
  have base : Base vm.pageMapL4 p2 live := base_of_built _ built
  obtain ⟨-, tables⟩ := unmap_changes base (fun _ _ _ _ freed => by cases freed) unmapped
  obtain ⟨n, start, pages, looped⟩ := unmap_eq_some unmapped
  have unmappable : AddressSpace.Unmappable live false (stackGuardEntry stackGuardPage).pages := by
    intro page mem
    have wasMapped := mapped_of_unmapPages base (fun _ _ _ _ freed => by cases freed) looped page
      (pages ▸ mem)
    obtain ⟨m, found⟩ := Option.isSome_iff_exists.mp wasMapped
    rw [found]
    rfl
  refine ⟨live.setAll (stackGuardEntry stackGuardPage).pages none,
    .call (.unmap (stackGuardEntry stackGuardPage) false) built trivial ?_, ?_, rfl, rfl⟩
  · simp only [AddressSpace.step, if_pos unmappable, unmapped]
    rfl
  · show (tableAt vm.pageMapL4 p3 [kernelL4Index]).isSome = true
    rw [tables _ (by simp)]
    exact kernelTable

/-- The kernel's mapper with the first page of its code mapped. -/
def startSpaces : KernelSpaces :=
  let space := (AddressSpace.step ProcessSpace.bootSpace.toAddressSpace
    (.map ProcessSpace.kernelEntry)).getD ProcessSpace.bootSpace.toAddressSpace
  ⟨space, [], space.vm.pageMapL4⟩

theorem started_startSpaces : Started startSpaces := by
  have runs : (AddressSpace.step ProcessSpace.bootSpace.toAddressSpace
      (.map ProcessSpace.kernelEntry)).isSome = true := by decide +kernel
  obtain ⟨space, taken⟩ := Option.isSome_iff_exists.mp runs
  have same : startSpaces.toAddressSpace = space := by
    simp only [startSpaces, taken, Option.getD_some]
  refine ⟨?_, by decide +kernel, rfl, rfl⟩
  rw [same]
  exact .call _ (.start ProcessSpace.boot_bootSpace.1) trivial taken

/-- A page of the kernel's heap: it lies below the same entry of level 3 as the kernel's code. -/
def heapEntry : VirtualMemoryMapEntry :=
  ⟨kernelHeapBase, none, page4K, ⟨true, false, false, false⟩⟩

/-- The first page below the last entry of level 3. -/
def lastEntry : VirtualMemoryMapEntry :=
  ⟨0xFFFFFFFFC0000000, none, page4K, ⟨true, false, false, false⟩⟩

/-- A page of the heap that is mapped after a process was cloned, and after that process was cloned
in turn, is seen in both clones. -/
theorem heap_page_shared : ∃ s t, Reached s ∧ s.clones.length = 2 ∧
    step s (.mapKernel heapEntry) = some t ∧ Shared t := by
  obtain ⟨s, reached, two, contract, entries, maps⟩ : ∃ s, Reached s ∧ s.clones.length = 2 ∧
      Contract s (.mapKernel heapEntry) ∧ HasEntries s (.mapKernel heapEntry) ∧
      (step s (.mapKernel heapEntry)).isSome :=
    Reachable.exists_of_run started_startSpaces
      [.cloneCurrentVmAsUser, .switchTo 0, .cloneCurrentVmAsUser] (by decide +kernel)
  obtain ⟨t, taken⟩ := Option.isSome_iff_exists.mp maps
  exact ⟨s, t, reached, two, taken,
    ((shared_iff_hasEntries s reached).2 _ t contract taken).mpr entries⟩

/-- The first page below the last entry of level 3, mapped after a process was cloned, is missing
in the clone. -/
theorem last_entry_not_shared :
    ¬ ∀ s, Reachable (fun s c t => step s c = some t) Contract Started s → Shared s := by
  intro all
  obtain ⟨s, reached, ⟨vm, mem, missing⟩, mapped⟩ :
      ∃ s, Reachable (fun s c t => step s c = some t) Contract Started s ∧
        (∃ vm ∈ s.clones, translatePage vm.pageMapL4 s.physical
          (pageNumber 0xFFFFFFFFC0000000) = none) ∧
        (translatePage s.vm.pageMapL4 s.physical (pageNumber 0xFFFFFFFFC0000000)).isSome :=
    Reachable.exists_of_run started_startSpaces
      [.cloneCurrentVmAsUser, .mapKernel lastEntry] (by decide +kernel)
  have same := all s reached vm mem (pageNumber 0xFFFFFFFFC0000000) (by decide)
  rw [← same, missing] at mapped
  cases mapped

end KernelSpaces

end Emerald.MemoryManagement
