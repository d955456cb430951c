
import Emerald.MemoryManagement.Proofs.ProcessSpace
import Emerald.MemoryManagement.Proofs.Sweep

/-!
# Teardown of a process

`unmap_process_memory` should free every page of the process once. The window that `skip` and `take`
cut out of the tables of level 3 is used up by the table of the first entry of level 4, and that
entry is followed whether it is present or not. `tornDown_iff_below_first_entry` says for which
processes the walk does what it should.
-/

namespace Emerald.MemoryManagement

open VirtualMemoryMapper

variable {s : ProcessSpace}

namespace ProcessSpace

/-- The pages of the process: those of user space and the process's part of the kernel's range. -/
def isOwnPage (page : Nat) : Bool := index4 page != kernelL4Index || isProcessKernelPage page

/-- Each mapped page of the process is freed once, its entry of level 1 is cleared, every other word
outside the freed pages is as it was, the entries of the shared kernel range among them, and only
present entries of level 4 were followed. -/
structure TornDown (s : ProcessSpace) (t : Teardown) : Prop where
  distinct : t.freed.Nodup
  freed : ∀ a, a ∈ t.freed ↔ ∃ v m e, isOwnPage v = true ∧ s.live v = some m ∧
    pteAt s.vm.pageMapL4 s.physical (leafPath v) = some e ∧ tableOf e = a
  cleared : ∀ a i, a ∉ t.freed → (∃ v m, isOwnPage v = true ∧ s.live v = some m ∧
    LeafAt s.vm.pageMapL4 s.physical v a i) → t.physical.memory a i = 0#64
  kept : ∀ a i, a ∉ t.freed → (¬ ∃ v m, isOwnPage v = true ∧ s.live v = some m ∧
    LeafAt s.vm.pageMapL4 s.physical v a i) → t.physical.memory a i = s.physical.memory a i
  shared : ∀ v, v < 2 ^ 36 → isOwnPage v = false →
    pteAt s.vm.pageMapL4 t.physical (leafPath v) = pteAt s.vm.pageMapL4 s.physical (leafPath v)
  followed : ∀ e ∈ t.followed, isPresent e = true

/-- The first entry of level 4 is present, and every mapped user page is below it. -/
def BelowFirstEntry (s : ProcessSpace) : Prop :=
  isPresent (s.physical.memory s.vm.pageMapL4 0) = true ∧
    ∀ v m, s.live v = some m → index4 v ≠ kernelL4Index → index4 v = 0

theorem below_pair {i j v : Nat} : Below [i, j] v ↔ i = index3 v ∧ j = index4 v := by
  simp only [Below, leafPath, List.suffix_cons_iff, List.suffix_nil, List.cons.injEq, and_true,
    reduceCtorEq, and_false, or_false, false_or]

theorem doForEveryUserEntry_eq (root : Nat) (t : Teardown) :
    doForEveryUserEntry root t = walkL4 root 0 512 0 [0] t := by
  have first : (List.range (numUserL4Indexes - 1 - 0 + 1)).filter
      (fun k => 512 * k < 0 + (0x1FF - 0 + 1)) = [0] := by decide +kernel
  rw [doForEveryUserEntry, doForRangesEntries, first]

theorem doForKernelProcessEntry_eq (root : Nat) (t : Teardown) :
    doForKernelProcessEntry root t =
      walkL4 root 0 (kernelL3ProcessIndexEnd + 1) kernelL4Index [0] t := by
  rfl

/-- The pages the first walk goes over. -/
theorem mem_userWindow {v : Nat} :
    (∃ i ∈ l3Window 0 512 0, Below [i, 0] v) ↔ index4 v = 0 := by
  simp only [l3Window, below_pair, List.mem_filter, List.mem_range]
  constructor
  · rintro ⟨i, -, -, first⟩
    exact first.symm
  · intro first
    exact ⟨index3 v, ⟨(index_lt v).2, by simpa using (index_lt v).2⟩, rfl, first.symm⟩

/-- The pages the second walk goes over. -/
theorem mem_kernelWindow {v : Nat} :
    (∃ i ∈ l3Window 0 (kernelL3ProcessIndexEnd + 1) 0, Below [i, kernelL4Index] v) ↔
      isProcessKernelPage v = true := by
  simp only [l3Window, below_pair, List.mem_filter, List.mem_range, isProcessKernelPage,
    Bool.and_eq_true, beq_iff_eq, decide_eq_true_eq]
  constructor
  · rintro ⟨i, ⟨-, -, low⟩, rfl, kernel⟩
    exact ⟨kernel.symm, by omega⟩
  · rintro ⟨kernel, low⟩
    exact ⟨index3 v, ⟨(index_lt v).2, by omega, by omega⟩, rfl, kernel.symm⟩

/-- The whole walk, if the first entry of level 4 is present. -/
theorem unmapProcessMemory_sweeps (inv : Inv s) (ready : s.ready = true)
    (present : isPresent (s.physical.memory s.vm.pageMapL4 0) = true) :
    ∃ t freed, unmapProcessMemory s.vm s.physical = some t ∧
      (∀ e ∈ t.followed, isPresent e = true) ∧
      Sweeps s.vm.pageMapL4 s.live (fun v => index4 v = 0 ∨ isProcessKernelPage v = true) freed
        ⟨[], [], s.physical⟩ t := by
  obtain ⟨user, stack⟩ := inv.stack ready
  have first : (fun v => ∃ i ∈ l3Window 0 512 0, Below [i, 0] v) = fun v => index4 v = 0 :=
    funext fun v => propext mem_userWindow
  have second : (fun v => ∃ i ∈ l3Window 0 (kernelL3ProcessIndexEnd + 1) 0,
      Below [i, kernelL4Index] v) = fun v => isProcessKernelPage v = true :=
    funext fun v => propext mem_kernelWindow
  have allocatedUser : ∀ v m, index4 v = 0 → s.live v = some m → m.allocated = true :=
    fun v m low mapped => inv.user user v m mapped (by rw [low]; decide)
  obtain ⟨t1, freed1, done1, sweeps1⟩ := walkL4_sweeps (t := ⟨[], [], s.physical⟩) (by decide)
    inv.base present (fun v m mem => allocatedUser v m (mem_userWindow.mp mem))
  rw [first] at sweeps1
  -- the kernel's code is still mapped, so the last entry of level 4 is present
  have kernelMapped : ∃ m, s.live.without (fun v => index4 v = 0) kernelPage = some m := by
    obtain ⟨m, mapped⟩ := Option.isSome_iff_exists.mp (inv.kernel user)
    exact ⟨m, Mappings.without_eq_some.mpr ⟨by decide, mapped⟩⟩
  obtain ⟨m, kernelMapped⟩ := kernelMapped
  obtain ⟨e, there, present'⟩ := sweeps1.base.upper_present kernelMapped [kernelL4Index] (by decide)
  have entry : t1.physical.memory s.vm.pageMapL4 kernelL4Index = e := Option.some.inj there
  obtain ⟨t2, freed2, done2, sweeps2⟩ := walkL4_sweeps (t := t1)
    (show kernelL4Index < 512 by decide) sweeps1.base (entry ▸ present')
    (fun v m mem mapped =>
      stack v m (Mappings.without_eq_some.mp mapped).2 (mem_kernelWindow.mp mem))
  rw [second] at sweeps2
  refine ⟨t2, freed1 ++ freed2, ?_, ?_, ?_⟩
  · rw [unmapProcessMemory, doForEveryUserEntry_eq, done1, some_bind,
      doForKernelProcessEntry_eq, done2]
  · rw [walkL4_followed done2, walkL4_followed done1, entry]
    simp [present, present']
  · refine sweeps1.trans inv.base (fun v m mem mapped => ?_) sweeps2
    rcases mem with low | own
    · exact allocatedUser v m low mapped
    · exact stack v m mapped own

/-- The first entry of level 4 is followed in any case. -/
theorem first_entry_followed {vm : VirtualMemoryMapper} {p : Physical} {t : Teardown}
    (done : unmapProcessMemory vm p = some t) : p.memory vm.pageMapL4 0 ∈ t.followed := by
  simp only [unmapProcessMemory, doForEveryUserEntry_eq, bind_eq_some] at done
  obtain ⟨t1, first, second⟩ := done
  rw [walkL4_followed second, walkL4_followed first]
  simp

/-- What is torn down as it should be is below the first entry. -/
theorem TornDown.belowFirstEntry {t : Teardown} (inv : Inv s) (ready : s.ready = true)
    (done : unmapProcessMemory s.vm s.physical = some t) (torn : TornDown s t) :
    BelowFirstEntry s := by
  have present := torn.followed _ (first_entry_followed done)
  refine ⟨present, fun v m mapped other => ?_⟩
  obtain ⟨user, stack⟩ := inv.stack ready
  have mine := inv.user user v m mapped other
  obtain ⟨t', freed, done', -, sweeps⟩ := unmapProcessMemory_sweeps inv ready present
  obtain rfl := Option.some.inj (done.symm.trans done')
  -- the page must have been freed, and it only is as a page the walk goes over
  obtain ⟨address, leaf⟩ := inv.base.mapped v m mapped
  have mem := (torn.freed _).mpr ⟨v, m, _, by simp [isOwnPage, other], mapped, leaf, rfl⟩
  rw [sweeps.passed] at mem
  obtain ⟨v', m', e', swept, mapped', there', same⟩ := (sweeps.mem _).mp mem
  have mine' : m'.allocated = true := by
    rcases swept with low | own
    · exact inv.user user v' m' mapped' (by rw [low]; decide)
    · exact stack v' m' mapped' own
  obtain rfl := inv.base.apart v v' m m' _ e' mapped mapped' mine mine' leaf there' same.symm
  rcases swept with low | own
  · exact low
  · simp only [isProcessKernelPage, Bool.and_eq_true, beq_iff_eq] at own
    exact absurd own.1 other

theorem tornDown_of_belowFirstEntry (inv : Inv s) (ready : s.ready = true)
    (below : BelowFirstEntry s) :
    ∃ t, unmapProcessMemory s.vm s.physical = some t ∧ TornDown s t := by
  obtain ⟨present, low⟩ := below
  obtain ⟨t, freed, done, followed, sweeps⟩ := unmapProcessMemory_sweeps inv ready present
  have own : ∀ v m, s.live v = some m →
      (isOwnPage v = true ↔ index4 v = 0 ∨ isProcessKernelPage v = true) := by
    intro v m mapped
    simp only [isOwnPage, Bool.or_eq_true, bne_iff_ne]
    constructor
    · rintro (user | kernel)
      · exact .inl (low v m mapped user)
      · exact .inr kernel
    · rintro (zero | kernel)
      · exact .inl (by rw [zero]; decide)
      · exact .inr kernel
  have passed : t.freed = freed := by simpa using sweeps.passed
  refine ⟨t, done, ?_, ?_, ?_, ?_, ?_, followed⟩
  · rw [passed]
    exact sweeps.distinct
  · intro a
    rw [passed, sweeps.mem]
    constructor
    · rintro ⟨v, m, e, swept, mapped, rest⟩
      exact ⟨v, m, e, (own v m mapped).mpr swept, mapped, rest⟩
    · rintro ⟨v, m, e, mine, mapped, rest⟩
      exact ⟨v, m, e, (own v m mapped).mp mine, mapped, rest⟩
  · rintro a i unfreed ⟨v, m, mine, mapped, leaf⟩
    exact sweeps.cleared a i (passed ▸ unfreed) ⟨v, m, (own v m mapped).mp mine, mapped, leaf⟩
  · intro a i unfreed noLeaf
    refine sweeps.kept a i (passed ▸ unfreed) ?_
    rintro ⟨v, m, swept, mapped, leaf⟩
    exact noLeaf ⟨v, m, (own v m mapped).mpr swept, mapped, leaf⟩
  · intro v small other
    simp only [isOwnPage, Bool.or_eq_false_iff, bne_eq_false_iff_eq] at other
    refine sweeps.leaves v small ?_
    rintro (zero | kernel)
    · rw [other.1] at zero
      exact absurd zero (by decide)
    · rw [other.2] at kernel
      cases kernel

/-- The teardown of a process does what it should exactly if the first entry of level 4 is present
and every user page is below it. -/
theorem tornDown_iff_below_first_entry (s : ProcessSpace) (reached : ReachableSpace s)
    (ready : s.ready = true) :
    (∃ t, unmapProcessMemory s.vm s.physical = some t ∧ TornDown s t) ↔ BelowFirstEntry s := by
  have inv := inv_of_reachable s reached
  constructor
  · rintro ⟨t, done, torn⟩
    exact torn.belowFirstEntry inv ready done
  · exact tornDown_of_belowFirstEntry inv ready

/-- A machine with ninety free pages. -/
def bootPhysical : Physical where
  memory := fun _ _ => 0#64
  allocator :=
    { freeList := (List.range 90).map fun k => kernelBase + page4K * (k + 1)
      highMemStart := 0
      start := kernelBase
      «end» := kernelEnd
      freeCount := 0
      usedCount := 0 }

def bootSpace : ProcessSpace where
  vm := ⟨page4K, false⟩
  physical := ((new bootPhysical).getD (⟨0, false⟩, bootPhysical)).2
  live := fun _ => none
  ready := false

theorem boot_bootSpace : Boot bootSpace :=
  ⟨⟨bootPhysical, ⟨by decide +kernel, by decide +kernel, by decide +kernel, by decide +kernel⟩,
    rfl, rfl⟩, rfl, rfl⟩

/-- The first page of the kernel's code. -/
def kernelEntry : VirtualMemoryMapEntry :=
  ⟨kernelLink, some extendedOffset, page4K, ⟨false, false, false, false⟩⟩

/-- A page of user code. -/
def codeEntry : VirtualMemoryMapEntry := ⟨page4K, none, page4K, ⟨true, true, false, false⟩⟩

/-- The page `allocate_process` puts below the end of user space. -/
def processMetaEntry : VirtualMemoryMapEntry :=
  ⟨maxUserVirtualAddress - page4K, none, page4K, ⟨false, true, false, false⟩⟩

/-- A process with a page of code and its kernel stack is torn down. -/
theorem tornDown_code : ∃ s t, ReachableSpace s ∧ s.ready = true ∧
    unmapProcessMemory s.vm s.physical = some t ∧ TornDown s t := by
  have runs : ((runCalls step (fun s c => decide (Contract s c)) bootSpace
      [.map kernelEntry, .cloneAsUser, .map codeEntry, .addProcessSpecificMappings]).map fun s =>
        (s.ready, isPresent (s.physical.memory s.vm.pageMapL4 0))) = some (true, true) := by
    decide +kernel
  obtain ⟨s, run, seen⟩ := Option.map_eq_some_iff.mp runs
  rw [Prod.mk.injEq] at seen
  have reached : ReachableSpace s := Reachable.of_runCalls (fun s c => decide (Contract s c))
    (fun _ _ => of_decide_eq_true) _ (.start boot_bootSpace) run
  have live := runCalls_foldl (fun s => s.live) (fun _ _ _ => live_step) run
  have below : BelowFirstEntry s := by
    refine ⟨seen.2, fun v m mapped other => ?_⟩
    have pages : codeEntry.pages = [1] ∧
        ∀ page ∈ processKernelStackEntry.pages, index4 page = kernelL4Index := by decide +kernel
    rw [live] at mapped
    simp only [List.foldl_cons, List.foldl_nil, liveAfter, Mappings.setAll, pages.1] at mapped
    split at mapped
    · rename_i mem
      exact absurd (pages.2 v mem) other
    · obtain ⟨-, mapped⟩ := Mappings.keep_eq_some.mp mapped
      simp only [Mappings.setAll] at mapped
      split at mapped
      · rename_i first
        rw [List.mem_singleton.mp first]
        decide
      · obtain ⟨kernel, -⟩ := Mappings.keep_eq_some.mp mapped
        exact absurd (by simpa [isKernelPage] using kernel) other
  obtain ⟨t, done, torn⟩ := (tornDown_iff_below_first_entry s reached seen.1).mpr below
  exact ⟨s, t, reached, seen.1, done, torn⟩

/-- A process built as `allocate_process` does it, with its meta page below the end of user space,
is not. -/
theorem meta_page_not_freed :
    ¬ ∀ s, ReachableSpace s → s.ready = true →
      ∃ t, unmapProcessMemory s.vm s.physical = some t ∧ TornDown s t := by
  intro all
  obtain ⟨s, reached, ready, live⟩ : ∃ s, ReachableSpace s ∧ s.ready = true ∧
      s.live (pageNumber (maxUserVirtualAddress - page4K)) =
        some ⟨⟨false, true, false, false⟩, true⟩ :=
    Reachable.exists_of_run boot_bootSpace [.map kernelEntry, .cloneAsUser, .map processMetaEntry,
      .map codeEntry, .addProcessSpecificMappings] (by decide +kernel)
  obtain ⟨t, done, torn⟩ := all s reached ready
  have below := torn.belowFirstEntry (inv_of_reachable s reached) ready done
  exact absurd (below.2 _ _ live (by decide)) (by decide)

end ProcessSpace

end Emerald.MemoryManagement
