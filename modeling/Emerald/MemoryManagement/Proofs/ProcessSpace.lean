
import Emerald.MemoryManagement.Proofs.Permissions

/-!
# The address space of a process

`clone_current_vm_as_user` and `add_process_specific_mappings` keep the bookkeeping of the tables in
order, and in the runs that build and change the address space of a process every page the process
has of its own was allocated by `map`.
-/

namespace Emerald.MemoryManagement

open VirtualMemoryMapper

variable {v : Nat} {path : List Nat}

/-- The mappings of the pages to keep. -/
def Mappings.keep (live : Mappings) (pages : Nat → Bool) : Mappings :=
  fun v => if pages v then live v else none

theorem Mappings.keep_eq_some {live : Mappings} {pages : Nat → Bool} {m : Mapping} :
    live.keep pages v = some m ↔ pages v = true ∧ live v = some m := by
  unfold Mappings.keep
  split <;> simp_all

/-- The pages of the kernel, which every process shares a table of level 3 or a copy of it for. -/
def isKernelPage (page : Nat) : Bool := index4 page == kernelL4Index

/-- The pages of the kernel's range that are different in every process. -/
def isProcessKernelPage (page : Nat) : Bool :=
  index4 page == kernelL4Index && decide (index3 page ≤ kernelL3ProcessIndexEnd)

theorem index_lt (page : Nat) : index4 page < 512 ∧ index3 page < 512 := by
  simp only [index4, index3]
  omega

section
variable {root : Nat} {p p' : Physical} {live : Mappings}

/-- A smaller set of pages under tables that agree on its entries. -/
theorem Base.restrict {root' : Nat} {pages : Nat → Bool} (base : Base root p live)
    (tree : Tree root' p')
    (same : ∀ v, pages v = true → pteAt root' p' (leafPath v) = pteAt root p (leafPath v))
    (gone : ∀ v, pages v = false → pteAt root' p' (leafPath v) = none)
    (outside : ∀ page, Outside root p page → Outside root' p' page) :
    Base root' p' (live.keep pages) := by
  refine base.of_kept tree ?_ ?_ ?_
  · intro v m kept
    obtain ⟨mem, mapped⟩ := Mappings.keep_eq_some.mp kept
    exact ⟨mapped, same v mem⟩
  · intro v e small absent there
    cases mem : pages v with
    | false =>
      rw [gone v mem] at there
      cases there
    | true =>
      rw [same v mem] at there
      exact base.unmapped v e small (by simpa [Mappings.keep, mem] using absent) there
  · intro v m e kept allocated there
    exact outside _ (base.owned v m e (Mappings.keep_eq_some.mp kept).2 allocated there)

/-- The entries for the process cleared in the kernel's table of level 3. -/
theorem Base.clearProcessEntries {table : Nat} {cleared : PhysicalMemory}
    (base : Base root p live) (here : tableAt root p [kernelL4Index] = some table)
    (memory : ∀ a i, cleared a i =
      if a = table ∧ i ≤ kernelL3ProcessIndexEnd then 0#64 else p.memory a i) :
    Base root { p with memory := cleared } (live.keep fun v => !isProcessKernelPage v) := by
  have fewer : ∀ n i, childTable (cleared n i) = none ∨
      childTable (cleared n i) = childTable (p.memory n i) := by
    intro n i
    rw [memory]
    split
    · exact .inl childTable_zero
    · exact .inr rfl
  have older : ∀ q n, nodeAt childTable cleared root q = some n → tableAt root p q = some n :=
    nodeAt_of_fewer fewer
  -- only the table of level 3 changes
  have other : ∀ q n i, q.length ≤ 3 → q ≠ [kernelL4Index] →
      tableAt root p q = some n → cleared n i = p.memory n i := by
    intro q n i short ne there
    rw [memory, if_neg]
    rintro ⟨rfl, -⟩
    exact ne (base.tree.unshared q _ n short (by simp) there here)
  have level3 : ∀ i4, nodeAt childTable cleared root [i4] = tableAt root p [i4] := by
    intro i4
    refine nodeAt_step rfl (fun n here => ?_)
    rw [other [] n i4 (by simp) (by simp) here]
  have tree : Tree root { p with memory := cleared } := by
    refine ⟨?_, ?_, ?_, base.tree.allocator⟩
    · intro a b n shortA shortB atA atB
      exact base.tree.unshared a b n shortA shortB (older a n atA) (older b n atB)
    · exact fun path n short there => base.tree.tables path n short (older path n there)
    · intro path e length there
      cases path with
      | nil => cases there
      | cons i q =>
        obtain ⟨n, at_, rfl⟩ := Option.map_eq_some_iff.mp there
        have length' : q.length = 2 := by simpa using length
        have before := older q n at_
        refine base.tree.plain (i :: q) _ length ?_
        rw [pteAt, entryAt_of_nodeAt before]
        exact congrArg some (other q n i (by omega) (by rintro rfl; simp at length') before).symm
  refine base.restrict tree ?_ ?_ ?_
  · intro v keep
    have notCleared : ¬ (index4 v = kernelL4Index ∧ index3 v ≤ kernelL3ProcessIndexEnd) := by
      simpa [isProcessKernelPage, imp_iff_not_or] using keep
    have level2 : nodeAt childTable cleared root [index3 v, index4 v] =
        tableAt root p [index3 v, index4 v] := by
      refine nodeAt_step (level3 _) (fun n there => ?_)
      rw [memory, if_neg]
      rintro ⟨rfl, low⟩
      have same := base.tree.unshared [index4 v] _ n (by simp) (by simp) there here
      exact notCleared ⟨(List.cons.inj same).1, low⟩
    have level1 : nodeAt childTable cleared root [index2 v, index3 v, index4 v] =
        tableAt root p [index2 v, index3 v, index4 v] := by
      refine nodeAt_step level2 (fun n there => ?_)
      rw [other _ n _ (by simp) (by simp) there]
    exact entryAt_step level1 (fun n there => other _ n _ (by simp) (by simp) there)
  · intro v cleared'
    have inRange : index4 v = kernelL4Index ∧ index3 v ≤ kernelL3ProcessIndexEnd := by
      simpa [isProcessKernelPage] using cleared'
    have gone : nodeAt childTable cleared root [index3 v, index4 v] = none := by
      have above := (level3 (index4 v)).trans (inRange.1 ▸ here)
      rw [nodeAt, above, Option.bind_some, memory, if_pos ⟨rfl, inRange.2⟩, childTable_zero]
    have gone' : nodeAt childTable cleared root [index2 v, index3 v, index4 v] = none := by
      rw [nodeAt, gone, Option.bind_none]
    simp only [leafPath, entryAt, gone', Option.map_none]
  · intro page outside
    exact ⟨outside.frame, outside.freeable, outside.used,
      fun path short there => outside.noTable path short (older path page there)⟩

/-- The memory `p'` after a clone of the tree at `root`, by way of the memory `q` in which the two
new tables are allocated and still empty: the old tables are as before, the new root leads to a copy
of the table `source` and nowhere else. -/
structure Cloned (root root' copy source : Nat) (p q p' : Physical) : Prop where
  allocator : p'.allocator = q.allocator
  tree : Tree root q
  entries : ∀ path, path.length ≤ 4 → pteAt root q path = pteAt root p path
  outsideRoot : Outside root q root'
  outsideCopy : Outside root q copy
  different : root' ≠ copy
  others : ∀ page, Outside root p page → Outside root q page ∧ page ≠ root' ∧ page ≠ copy
  unchanged : ∀ a i, a ≠ root' → a ≠ copy → q.memory a i = p.memory a i
  zero : ∀ i, i ≠ kernelL4Index → p'.memory root' i = 0#64
  linked : childTable (p'.memory root' kernelL4Index) = some copy
  copied : ∀ i, i < 512 → p'.memory copy i = q.memory source i
  beyond : ∀ i, 512 ≤ i → p'.memory copy i = 0#64
  memory : ∀ a i, a ≠ root' → a ≠ copy → p'.memory a i = q.memory a i

theorem cloneAsUser_cloned {vm vm' : VirtualMemoryMapper} (tree : Tree root p)
    (done : cloneAsUser vm p = some (vm', p')) :
    vm'.isUser = true ∧ ∃ copy q, Cloned root vm'.pageMapL4 copy
      (tableOf (p.memory vm.pageMapL4 kernelL4Index)) p q p' := by
  simp only [cloneAsUser, new, bind_eq_some, Prod.exists] at done
  obtain ⟨newVm, p1, ⟨table, p1', made, rfl, rfl⟩, copy, q, copied, rfl, rfl⟩ := done
  obtain ⟨⟨tree1, -, entries1⟩, outside1, zero1, memory1, others1⟩ := allocTable_spec tree made
  obtain ⟨⟨tree2, -, entries2⟩, outside2, zero2, memory2, others2⟩ := allocTable_spec tree1 copied
  obtain ⟨outsideRoot, ne⟩ := others2 table outside1
  refine ⟨rfl, copy, q, rfl, tree2, ?_, outsideRoot, outside2, ne, ?_, ?_, ?_, ?_, ?_, ?_, ?_⟩
  · intro path short
    rw [entries2 path short, entries1 path short]
  · intro page before
    obtain ⟨still, apart⟩ := others1 page before
    obtain ⟨still', apart'⟩ := others2 page still
    exact ⟨still', apart, apart'⟩
  · intro a i notRoot notCopy
    rw [memory2 a i notCopy, memory1 a i notRoot]
  · intro i other
    simp only [write_memory, PhysicalMemory.copyEntries]
    rw [if_neg (fun target => other target.2), if_neg (fun target => ne target.1),
      memory2 _ _ ne, zero1]
  · obtain ⟨present, leads⟩ := outside2.frame.kernelEntry
    rw [write_memory, if_pos ⟨rfl, rfl⟩, childTable_of_present present, leads]
  · intro i small
    simp only [write_memory, PhysicalMemory.copyEntries]
    rw [if_neg (fun target => ne target.1.symm), if_pos ⟨trivial, small⟩]
  · intro i large
    simp only [write_memory, PhysicalMemory.copyEntries]
    rw [if_neg (fun target => ne target.1.symm), if_neg (fun target => by omega), zero2]
  · intro a i notRoot notCopy
    simp only [write_memory, PhysicalMemory.copyEntries]
    rw [if_neg (fun target => notRoot target.1), if_neg (fun target => notCopy target.1)]

namespace Cloned
variable {root' copy source : Nat} {q : Physical}

section
variable (cloned : Cloned root root' copy source p q p') {n : Nat}
include cloned

theorem tables (short : path.length ≤ 3) : tableAt root q path = tableAt root p path := by
  refine tableAt_congr (fun nonempty => ?_)
  rw [cloned.entries path (by omega)]

/-- A table of the old tree is not one of the new ones. -/
theorem apart (short : path.length ≤ 3) (there : tableAt root q path = some n) :
    n ≠ root' ∧ n ≠ copy := by
  constructor
  · rintro rfl
    exact cloned.outsideRoot.noTable path short there
  · rintro rfl
    exact cloned.outsideCopy.noTable path short there

/-- A table of the old tree has the same entries as before. -/
theorem sameEntries (short : path.length ≤ 3) (there : tableAt root q path = some n)
    (i : Nat) : p'.memory n i = q.memory n i := by
  obtain ⟨notRoot, notCopy⟩ := cloned.apart short there
  exact cloned.memory n i notRoot notCopy

section
variable (here : tableAt root q [kernelL4Index] = some source)
include here

/-- Below its root the clone has the tables of the kernel. -/
theorem kernelTables {j : Nat} (small : j < 512) :
    tableAt root' p' [j, kernelL4Index] = tableAt root q [j, kernelL4Index] := by
  have level3 : tableAt root' p' [kernelL4Index] = some copy := cloned.linked
  simp only [nodeAt] at level3 here ⊢
  rw [level3, here, Option.bind_some, Option.bind_some, cloned.copied j small]

/-- The tables of the clone: its own two and, below them, those of the kernel. -/
theorem inversion :
    ∀ path n, path.length ≤ 3 →
      tableAt root' p' path = some n →
      (path = [] ∧ n = root') ∨ (path = [kernelL4Index] ∧ n = copy) ∨
        (2 ≤ path.length ∧ tableAt root q path = some n) := by
  intro path
  induction path with
  | nil => exact fun n _ there => .inl ⟨rfl, (Option.some.inj there).symm⟩
  | cons i rest ih =>
    intro n short there
    have short' : rest.length ≤ 2 := Nat.le_of_succ_le_succ short
    obtain ⟨m, before, leads⟩ := nodeAt_tail there
    rcases ih m (by omega) before with ⟨rfl, rfl⟩ | ⟨rfl, rfl⟩ | ⟨long, old⟩
    · by_cases kernel : i = kernelL4Index
      · rw [kernel, cloned.linked] at leads
        exact .inr (.inl ⟨by rw [kernel], (Option.some.inj leads).symm⟩)
      · rw [cloned.zero i kernel] at leads
        cases leads
    · by_cases small : i < 512
      · rw [cloned.kernelTables here small] at there
        exact .inr (.inr ⟨by simp, there⟩)
      · rw [cloned.beyond i (by omega), childTable_zero] at leads
        cases leads
    · rw [cloned.sameEntries (by omega) old] at leads
      refine .inr (.inr ⟨by simp only [List.length_cons]; omega, ?_⟩)
      exact bind_eq_some.mpr ⟨m, old, leads⟩

/-- The tables of the clone are a tree. -/
theorem newTree : Tree root' p' := by
  have inversion := cloned.inversion here
  refine ⟨?_, ?_, ?_, ?_⟩
  · intro a b n shortA shortB atA atB
    rcases inversion a n shortA atA with ⟨rfl, rfl⟩ | ⟨rfl, rfl⟩ | ⟨-, oldA⟩ <;>
      rcases inversion b _ shortB atB with ⟨rfl, same⟩ | ⟨rfl, same⟩ | ⟨-, oldB⟩
    · rfl
    · exact absurd same cloned.different
    · exact absurd rfl (cloned.apart shortB oldB).1
    · exact absurd same.symm cloned.different
    · rfl
    · exact absurd rfl (cloned.apart shortB oldB).2
    · exact absurd same (cloned.apart shortA oldA).1
    · exact absurd same (cloned.apart shortA oldA).2
    · exact cloned.tree.unshared a b n shortA shortB oldA oldB
  · intro path n short there
    rw [cloned.allocator]
    rcases inversion path n short there with ⟨-, rfl⟩ | ⟨-, rfl⟩ | ⟨-, old⟩
    · exact ⟨cloned.outsideRoot.frame, cloned.outsideRoot.used⟩
    · exact ⟨cloned.outsideCopy.frame, cloned.outsideCopy.used⟩
    · exact cloned.tree.tables path n short old
  · intro path e length there
    cases path with
    | nil => cases there
    | cons i rest =>
      have length' : rest.length = 2 := by simpa using length
      obtain ⟨m, before, rfl⟩ := Option.map_eq_some_iff.mp there
      rcases inversion rest m (by omega) before with ⟨rfl, -⟩ | ⟨rfl, -⟩ | ⟨-, old⟩
      · simp at length'
      · simp at length'
      · rw [cloned.sameEntries (by omega) old]
        exact cloned.tree.plain (i :: rest) _ length (entryAt_of_nodeAt old)
  · rw [cloned.allocator]
    exact cloned.tree.allocator

/-- A page of the kernel is mapped in the clone as it was. -/
theorem kernelPage (kernel : index4 v = kernelL4Index) :
    pteAt root' p' (leafPath v) = pteAt root p (leafPath v) := by
  rw [← cloned.entries (leafPath v) (le_refl 4), leafPath, kernel]
  have level1 : tableAt root' p' [index2 v, index3 v, kernelL4Index] =
      tableAt root q [index2 v, index3 v, kernelL4Index] := by
    refine nodeAt_step (cloned.kernelTables here (index_lt v).2) (fun n there => ?_)
    rw [cloned.sameEntries (by simp) there]
  exact entryAt_step level1 (fun n there => cloned.sameEntries (by simp) there _)

end

/-- No other page is mapped in the clone. -/
theorem otherPage (other : index4 v ≠ kernelL4Index) : pteAt root' p' (leafPath v) = none := by
  have gone : nodeAt childTable p'.memory root' [index4 v] = none := by
    simp only [nodeAt, Option.bind_some, cloned.zero _ other, childTable_zero]
  simp only [leafPath, entryAt]
  rw [nodeAt, nodeAt, gone]
  rfl

end

end Cloned

/-- A clone has the pages of the kernel and no others. -/
theorem Base.cloneAsUser {vm vm' : VirtualMemoryMapper} {kernelTable : Nat}
    (base : Base vm.pageMapL4 p live)
    (here : tableAt vm.pageMapL4 p [kernelL4Index] = some kernelTable)
    (done : cloneAsUser vm p = some (vm', p')) :
    vm'.isUser = true ∧ Base vm'.pageMapL4 p' (live.keep isKernelPage) := by
  obtain ⟨user, copy, q, cloned⟩ := cloneAsUser_cloned base.tree done
  refine ⟨user, ?_⟩
  have source : tableOf (p.memory vm.pageMapL4 kernelL4Index) = kernelTable :=
    (childTable_eq_some_iff.mp here).2
  rw [source] at cloned
  rw [← cloned.tables (by simp)] at here
  refine base.restrict (cloned.newTree here) ?_ ?_ ?_
  · intro v kernel
    exact cloned.kernelPage here (by simpa [isKernelPage] using kernel)
  · intro v other
    exact cloned.otherPage (by simpa [isKernelPage] using other)
  · intro page before
    obtain ⟨still, notRoot, notCopy⟩ := cloned.others page before
    refine ⟨still.frame, cloned.allocator ▸ still.freeable, cloned.allocator ▸ still.used, ?_⟩
    intro path short there
    rcases cloned.inversion here path page short there with ⟨-, same⟩ | ⟨-, same⟩ | ⟨-, old⟩
    · exact notRoot same
    · exact notCopy same
    · exact still.noTable path short old

end

/-! ## Runs -/

/-- An address space, of the kernel or of a process. It is ready once the process has its kernel
stack. -/
structure ProcessSpace extends AddressSpace where
  ready : Bool

namespace ProcessSpace
variable {s t : ProcessSpace} {entry : VirtualMemoryMapEntry} {space : AddressSpace} {p : Physical}

inductive Call where
  | map (entry : VirtualMemoryMapEntry)
  | unmap (entry : VirtualMemoryMapEntry) (isAllocated : Bool)
  | cloneAsUser
  | addProcessSpecificMappings
  deriving DecidableEq

def step (s : ProcessSpace) : Call → Option ProcessSpace
  | .map entry => do
    let space ← s.toAddressSpace.step (.map entry)
    some ⟨space, s.ready⟩
  | .unmap entry isAllocated => do
    let space ← s.toAddressSpace.step (.unmap entry isAllocated)
    some ⟨space, s.ready⟩
  | .cloneAsUser => do
    let (vm, physical) ← s.vm.cloneAsUser s.physical
    some ⟨⟨vm, physical, s.live.keep isKernelPage⟩, false⟩
  | .addProcessSpecificMappings => do
    let physical ← s.vm.addProcessSpecificMappings s.physical
    let live := s.live.keep fun v => !isProcessKernelPage v
    let stack := processKernelStackEntry
    some ⟨⟨s.vm, physical, live.setAll stack.pages (some ⟨stack.flags, true⟩)⟩, true⟩

/-- The mappings after a call. -/
def liveAfter (live : Mappings) : Call → Mappings
  | .map entry => live.setAll entry.pages (some ⟨entry.flags, entry.physicalAddress.isNone⟩)
  | .unmap entry _ => live.setAll entry.pages none
  | .cloneAsUser => live.keep isKernelPage
  | .addProcessSpecificMappings =>
    (live.keep fun v => !isProcessKernelPage v).setAll processKernelStackEntry.pages
      (some ⟨processKernelStackEntry.flags, true⟩)

theorem live_step {c : Call} (taken : step s c = some t) :
    t.live = liveAfter s.live c := by
  cases c with
  | map entry =>
    simp only [step, AddressSpace.step, bind_eq_some, Option.some.injEq] at taken
    obtain ⟨space, ⟨p, -, rfl⟩, rfl⟩ := taken
    rfl
  | unmap entry isAllocated =>
    simp only [step, AddressSpace.step, bind_eq_some, Option.ite_none_right_eq_some,
      Option.some.injEq] at taken
    obtain ⟨space, ⟨-, p, -, rfl⟩, rfl⟩ := taken
    rfl
  | cloneAsUser =>
    simp only [step, bind_eq_some, Option.some.injEq] at taken
    obtain ⟨vm, p, -, rfl⟩ := taken
    rfl
  | addProcessSpecificMappings =>
    simp only [step, bind_eq_some, Option.some.injEq] at taken
    obtain ⟨p, -, rfl⟩ := taken
    rw [liveAfter]

/-- A page of the kernel's code, which is always mapped. -/
def kernelPage : Nat := pageNumber kernelLink

/-- How the calls are made: a process maps and unmaps pages below the entries of level 4 for user
space and lets `map` allocate them, a clone is made while the kernel's code is mapped, and the
kernel stack is mapped once for each clone. -/
def Contract (s : ProcessSpace) : Call → Prop
  | .map entry => s.vm.isUser = true → entry.physicalAddress = none ∧
      ∀ page ∈ entry.pages, index4 page ≠ kernelL4Index
  | .unmap entry _ => s.vm.isUser = true → ∀ page ∈ entry.pages, index4 page ≠ kernelL4Index
  | .cloneAsUser => (s.live kernelPage).isSome = true
  | .addProcessSpecificMappings => s.vm.isUser = true ∧ s.ready = false

instance (s : ProcessSpace) : (c : Call) → Decidable (Contract s c)
  | .map entry => inferInstanceAs (Decidable (_ → entry.physicalAddress = none ∧
      ∀ page ∈ entry.pages, index4 page ≠ kernelL4Index))
  | .unmap entry _ => inferInstanceAs (Decidable (_ → ∀ page ∈ entry.pages,
      index4 page ≠ kernelL4Index))
  | .cloneAsUser => inferInstanceAs (Decidable (_ = true))
  | .addProcessSpecificMappings => inferInstanceAs (Decidable (_ ∧ _))

structure Inv (s : ProcessSpace) : Prop where
  base : Base s.vm.pageMapL4 s.physical s.live
  kernel : s.vm.isUser = true → (s.live kernelPage).isSome = true
  user : s.vm.isUser = true → ∀ v m, s.live v = some m → index4 v ≠ kernelL4Index →
    m.allocated = true
  stack : s.ready = true → s.vm.isUser = true ∧
    ∀ v m, s.live v = some m → isProcessKernelPage v = true → m.allocated = true

section
variable (inv : Inv s)
include inv

/-- The table of level 3 for the kernel's range. -/
theorem Inv.kernelTable (mapped : (s.live kernelPage).isSome = true) :
    isPresent (s.physical.memory s.vm.pageMapL4 kernelL4Index) = true ∧
      tableAt s.vm.pageMapL4 s.physical [kernelL4Index] =
        some (tableOf (s.physical.memory s.vm.pageMapL4 kernelL4Index)) := by
  obtain ⟨m, mapped⟩ := Option.isSome_iff_exists.mp mapped
  obtain ⟨e, there, present⟩ := inv.base.upper_present mapped [kernelL4Index] (by decide)
  have entry : s.physical.memory s.vm.pageMapL4 kernelL4Index = e := Option.some.inj there
  rw [entry]
  exact ⟨present, nodeAt_eq_some_iff.mpr ⟨e, there, childTable_of_present present⟩⟩

theorem inv_map
    (contract : Contract s (.map entry)) (taken : s.toAddressSpace.step (.map entry) = some space) :
    Inv ⟨space, s.ready⟩ := by
  obtain ⟨base, -⟩ := AddressSpace.base_step inv.base taken
  obtain ⟨p, -, rfl⟩ := bind_some_eq_some.mp taken
  refine ⟨base, ?_, ?_, ?_⟩
  · intro user
    obtain ⟨-, pages⟩ := contract user
    have outside : kernelPage ∉ entry.pages := fun mem => pages _ mem (by decide)
    simpa [Mappings.setAll, outside] using inv.kernel user
  · intro user v m mapped other
    obtain ⟨allocates, -⟩ := contract user
    simp only [Mappings.setAll] at mapped
    split at mapped
    · rw [← Option.some.inj mapped, allocates]
      rfl
    · exact inv.user user v m mapped other
  · intro ready
    obtain ⟨user, stack⟩ := inv.stack ready
    refine ⟨user, fun v m mapped own => ?_⟩
    obtain ⟨-, pages⟩ := contract user
    have outside : v ∉ entry.pages := by
      intro mem
      simp only [isProcessKernelPage, Bool.and_eq_true, beq_iff_eq] at own
      exact pages v mem own.1
    simp only [Mappings.setAll, outside] at mapped
    exact stack v m mapped own

theorem inv_unmap {isAllocated : Bool} (contract : Contract s (.unmap entry isAllocated))
    (taken : s.toAddressSpace.step (.unmap entry isAllocated) = some space) :
    Inv ⟨space, s.ready⟩ := by
  obtain ⟨base, -⟩ := AddressSpace.base_step inv.base taken
  obtain ⟨p, -, rfl⟩ := bind_some_eq_some.mp (Option.ite_none_right_eq_some.mp taken).2
  have older : ∀ v m, s.live.setAll entry.pages none v = some m → s.live v = some m := by
    intro v m mapped
    exact (Option.ite_none_left_eq_some.mp mapped).2
  refine ⟨base, ?_, fun user v m mapped => inv.user user v m (older v m mapped), ?_⟩
  · intro user
    have outside : kernelPage ∉ entry.pages := fun mem => contract user _ mem (by decide)
    simpa [Mappings.setAll, outside] using inv.kernel user
  · intro ready
    obtain ⟨user, stack⟩ := inv.stack ready
    exact ⟨user, fun v m mapped => stack v m (older v m mapped)⟩

theorem inv_cloneAsUser {vm : VirtualMemoryMapper}
    (contract : Contract s .cloneAsUser) (done : s.vm.cloneAsUser s.physical = some (vm, p)) :
    Inv ⟨⟨vm, p, s.live.keep isKernelPage⟩, false⟩ := by
  obtain ⟨-, base⟩ := inv.base.cloneAsUser (inv.kernelTable contract).2 done
  refine ⟨base, fun _ => ?_, fun _ v m mapped other => ?_, by simp⟩
  · exact contract
  · obtain ⟨kernel, -⟩ := Mappings.keep_eq_some.mp mapped
    simp only [isKernelPage, beq_iff_eq] at kernel
    exact absurd kernel other

theorem inv_addProcessSpecificMappings (contract : Contract s .addProcessSpecificMappings)
    (done : s.vm.addProcessSpecificMappings s.physical = some p) :
    Inv ⟨⟨s.vm, p, (s.live.keep fun v => !isProcessKernelPage v).setAll
      processKernelStackEntry.pages (some ⟨processKernelStackEntry.flags, true⟩)⟩, true⟩ := by
  obtain ⟨user, -⟩ := contract
  have memory : ∀ a i, s.physical.memory.clearEntries
      (tableOf (s.physical.memory s.vm.pageMapL4 kernelL4Index)) kernelL3ProcessIndexStart
      kernelL3ProcessIndexEnd a i =
        if a = tableOf (s.physical.memory s.vm.pageMapL4 kernelL4Index) ∧
          i ≤ kernelL3ProcessIndexEnd then 0#64 else s.physical.memory a i := by
    intro a i
    simp [PhysicalMemory.clearEntries, kernelL3ProcessIndexStart]
  have cleared := inv.base.clearProcessEntries (inv.kernelTable (inv.kernel user)).2 memory
  obtain ⟨base, -⟩ := AddressSpace.map_step
    (s := ⟨{ s.vm with isUser := false }, _, s.live.keep fun v => !isProcessKernelPage v⟩)
    cleared done
  have allocates : processKernelStackEntry.physicalAddress.isNone = true := rfl
  rw [allocates] at base
  generalize processKernelStackEntry = stack at *
  have cases' : ∀ v m, (s.live.keep fun v => !isProcessKernelPage v).setAll
      stack.pages (some ⟨stack.flags, true⟩) v = some m →
      m.allocated = true ∨ (isProcessKernelPage v = false ∧ s.live v = some m) := by
    intro v m mapped
    simp only [Mappings.setAll] at mapped
    split at mapped
    · rw [← Option.some.inj mapped]
      exact .inl rfl
    · obtain ⟨kept, mapped⟩ := Mappings.keep_eq_some.mp mapped
      exact .inr ⟨by simpa using kept, mapped⟩
  refine ⟨base, fun _ => ?_, ?_, fun _ => ⟨user, ?_⟩⟩
  · simp only [Mappings.setAll]
    split
    · rfl
    · exact inv.kernel user
  · intro _ v m mapped other
    rcases cases' v m mapped with allocated | ⟨-, older⟩
    · exact allocated
    · exact inv.user user v m older other
  · intro v m mapped own
    rcases cases' v m mapped with allocated | ⟨notOwn, -⟩
    · exact allocated
    · rw [notOwn] at own
      cases own

theorem inv_step {c : Call} (contract : Contract s c) (taken : step s c = some t) : Inv t := by
  cases c with
  | map entry =>
    obtain ⟨space, done, rfl⟩ := bind_some_eq_some.mp taken
    exact inv_map inv contract done
  | unmap entry isAllocated =>
    obtain ⟨space, done, rfl⟩ := bind_some_eq_some.mp taken
    exact inv_unmap inv contract done
  | cloneAsUser =>
    simp only [step, bind_eq_some, Prod.exists] at taken
    obtain ⟨vm, p, done, taken⟩ := taken
    cases taken
    exact inv_cloneAsUser inv contract done
  | addProcessSpecificMappings =>
    obtain ⟨p, done, rfl⟩ := bind_some_eq_some.mp taken
    exact inv_addProcessSpecificMappings inv contract done

end

/-- A new mapper of the kernel. -/
def Boot (s : ProcessSpace) : Prop :=
  s.toAddressSpace.Fresh ∧ s.vm.isUser = false ∧ s.ready = false

abbrev ReachableSpace : ProcessSpace → Prop :=
  Reachable (fun s c t => step s c = some t) Contract Boot

theorem inv_of_reachable : ∀ s, ReachableSpace s → Inv s := by
  apply Reachable.invariant
  · rintro s ⟨fresh, kernel, unready⟩
    exact ⟨AddressSpace.base_of_fresh fresh, by simp [kernel], by simp [kernel], by simp [unready]⟩
  · exact fun s c t inv contract taken => inv_step inv contract taken

end ProcessSpace

end Emerald.MemoryManagement
