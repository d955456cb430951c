
import Emerald.MemoryManagement.Proofs.PageMapping

/-!
# The teardown walk below one table

Each loop of `do_for_ranges_entries` frees exactly the mapped pages below the entries it goes over
and clears exactly their entries of level 1. The levels share one rule for the loop,
`forPresent_sweeps`, and each of them is an instance of `SweepsBelow`.
-/

namespace Emerald.MemoryManagement

open VirtualMemoryMapper

variable {v : Nat} {m : Mapping} {q : List Nat} {body : Nat → Nat → Teardown → Option Teardown}
variable {pages : Nat → Prop} {live : Mappings}

open Classical in
/-- The mappings without those of some pages. -/
noncomputable def Mappings.without (live : Mappings) (pages : Nat → Prop) : Mappings :=
  fun v => if pages v then none else live v

theorem Mappings.without_eq_some :
    live.without pages v = some m ↔ ¬ pages v ∧ live v = some m := by
  unfold Mappings.without
  split <;> simp_all

theorem Mappings.without_without (live : Mappings) (pages others : Nat → Prop) :
    (live.without pages).without others = live.without (fun v => pages v ∨ others v) := by
  funext v
  by_cases one : pages v <;> by_cases two : others v <;> simp [Mappings.without, one, two]

theorem Mappings.without_of_none
    (absent : ∀ v, pages v → live v = none) : live.without pages = live := by
  funext v
  by_cases mem : pages v
  · simp [Mappings.without, absent v mem]
  · simp [Mappings.without, mem]

/-- The pages that are reached over a path. -/
def Below (path : List Nat) (v : Nat) : Prop := path <:+ leafPath v

/-- The place of the entry of level 1 of a page. -/
def LeafAt (root : Nat) (p : Physical) (v table index : Nat) : Prop :=
  tableAt root p [index2 v, index3 v, index4 v] = some table ∧ index1 v = index

/-- The mapped ones of the pages are freed, each once, and their entries are cleared. Apart from
the contents of the freed pages no other word changes. -/
structure Sweeps (root : Nat) (live : Mappings) (pages : Nat → Prop) (freed : List Nat)
    (t t' : Teardown) : Prop where
  base : Base root t'.physical (live.without pages)
  passed : t'.freed = t.freed ++ freed
  distinct : freed.Nodup
  mem : ∀ a, a ∈ freed ↔ ∃ v m e, pages v ∧ live v = some m ∧
    pteAt root t.physical (leafPath v) = some e ∧ tableOf e = a
  tables : ∀ path, path.length ≤ 3 →
    tableAt root t'.physical path = tableAt root t.physical path
  leaves : ∀ v, v < 2 ^ 36 → ¬ pages v →
    pteAt root t'.physical (leafPath v) = pteAt root t.physical (leafPath v)
  cleared : ∀ a i, a ∉ freed → (∃ v m, pages v ∧ live v = some m ∧ LeafAt root t.physical v a i) →
    t'.physical.memory a i = 0#64
  kept : ∀ a i, a ∉ freed →
    (¬ ∃ v m, pages v ∧ live v = some m ∧ LeafAt root t.physical v a i) →
    t'.physical.memory a i = t.physical.memory a i

section
variable {root n d i : Nat} {live : Mappings} {pages others : Nat → Prop} {freed freed' : List Nat}
  {t t' t'' : Teardown}

theorem Sweeps.refl (base : Base root t.physical live) (absent : ∀ v, pages v → live v = none) :
    Sweeps root live pages [] t t := by
  have empty : ∀ v m, pages v → live v = some m → False := by
    intro v m mem mapped
    rw [absent v mem] at mapped
    cases mapped
  refine ⟨?_, by simp, List.nodup_nil, ?_, fun _ _ => rfl, fun _ _ _ => rfl, ?_, fun _ _ _ _ => rfl⟩
  · rw [Mappings.without_of_none absent]
    exact base
  · intro a
    simp only [List.not_mem_nil, false_iff]
    rintro ⟨v, m, -, mem, mapped, -⟩
    exact empty v m mem mapped
  · rintro a i - ⟨v, m, mem, mapped, -⟩
    exact absurd mapped (fun mapped => empty v m mem mapped)

theorem LeafAt.congr {p p' : Physical} {a : Nat} (at_ : LeafAt root p v a i)
    (tables : ∀ path, path.length ≤ 3 → tableAt root p' path = tableAt root p path) :
    LeafAt root p' v a i := by
  refine ⟨?_, at_.2⟩
  rw [tables _ (by simp)]
  exact at_.1

/-- One set of pages swept after another. -/
theorem Sweeps.trans (base : Base root t.physical live)
    (allocated : ∀ v m, pages v ∨ others v → live v = some m → m.allocated = true)
    (one : Sweeps root live pages freed t t')
    (two : Sweeps root (live.without pages) others freed' t' t'') :
    Sweeps root live (fun v => pages v ∨ others v) (freed ++ freed') t t'' := by
  -- the pages the second walk frees, by the tables before the first one
  have later : ∀ a, a ∈ freed' ↔ ∃ v m e, others v ∧ ¬ pages v ∧ live v = some m ∧
      pteAt root t.physical (leafPath v) = some e ∧ tableOf e = a := by
    intro a
    rw [two.mem]
    constructor
    · rintro ⟨v, m, e, mem, mapped, there, leads⟩
      obtain ⟨outside, mapped⟩ := Mappings.without_eq_some.mp mapped
      rw [one.leaves v (base.small v m mapped) outside] at there
      exact ⟨v, m, e, mem, outside, mapped, there, leads⟩
    · rintro ⟨v, m, e, mem, outside, mapped, there, leads⟩
      rw [← one.leaves v (base.small v m mapped) outside] at there
      exact ⟨v, m, e, mem, Mappings.without_eq_some.mpr ⟨outside, mapped⟩, there, leads⟩
  have back : ∀ path, path.length ≤ 3 →
      tableAt root t.physical path = tableAt root t'.physical path :=
    fun path short => (one.tables path short).symm
  refine ⟨?_, ?_, ?_, ?_, ?_, ?_, ?_, ?_⟩
  · rw [← Mappings.without_without]
    exact two.base
  · rw [two.passed, one.passed, List.append_assoc]
  · refine List.nodup_append.mpr ⟨one.distinct, two.distinct, ?_⟩
    rintro a first b second rfl
    obtain ⟨v, m, e, mem, mapped, there, leads⟩ := (one.mem a).mp first
    obtain ⟨v', m', e', mem', outside, mapped', there', leads'⟩ := (later a).mp second
    have same := base.apart v v' m m' e e' mapped mapped' (allocated v m (.inl mem) mapped)
      (allocated v' m' (.inr mem') mapped') there there' (leads.trans leads'.symm)
    exact outside (same ▸ mem)
  · intro a
    rw [List.mem_append, one.mem, later]
    constructor
    · rintro (⟨v, m, e, mem, rest⟩ | ⟨v, m, e, mem, -, rest⟩)
      · exact ⟨v, m, e, .inl mem, rest⟩
      · exact ⟨v, m, e, .inr mem, rest⟩
    · rintro ⟨v, m, e, mem, rest⟩
      by_cases first : pages v
      · exact .inl ⟨v, m, e, first, rest⟩
      · exact .inr ⟨v, m, e, mem.resolve_left first, first, rest⟩
  · intro path short
    rw [two.tables path short, one.tables path short]
  · intro v small outside
    rw [not_or] at outside
    rw [two.leaves v small outside.2, one.leaves v small outside.1]
  · rintro a i unfreed ⟨v, m, mem, mapped, at_⟩
    rw [List.mem_append, not_or] at unfreed
    by_cases again : ∃ v m, others v ∧ live.without pages v = some m ∧ LeafAt root t'.physical v a i
    · exact two.cleared a i unfreed.2 again
    · rw [two.kept a i unfreed.2 again]
      refine one.cleared a i unfreed.1 ⟨v, m, ?_, mapped, at_⟩
      by_contra outside
      exact again ⟨v, m, mem.resolve_left outside,
        Mappings.without_eq_some.mpr ⟨outside, mapped⟩, at_.congr one.tables⟩
  · intro a i unfreed untouched
    rw [List.mem_append, not_or] at unfreed
    rw [two.kept a i unfreed.2, one.kept a i unfreed.1]
    · rintro ⟨v, m, mem, rest⟩
      exact untouched ⟨v, m, .inl mem, rest⟩
    · rintro ⟨v, m, mem, mapped, at_⟩
      exact untouched ⟨v, m, .inr mem, (Mappings.without_eq_some.mp mapped).2, at_.congr back⟩

/-! ## Paths -/

theorem lt_of_mem_leafPath {j : Nat} (mem : j ∈ leafPath v) : j < 512 := by
  simp only [leafPath, index1, index2, index3, index4, List.mem_cons, List.not_mem_nil,
    or_false] at mem
  omega

theorem exists_leafPath (path : List Nat) (length : path.length = 4)
    (small : ∀ j ∈ path, j < 512) : ∃ v, v < 2 ^ 36 ∧ leafPath v = path := by
  match path, length with
  | [i1, i2, i3, i4], _ =>
    simp only [List.mem_cons, forall_eq_or_imp] at small
    refine ⟨((i4 * 512 + i3) * 512 + i2) * 512 + i1, by omega, ?_⟩
    simp only [leafPath, index1, index2, index3, index4, List.cons.injEq, and_true]
    omega

/-- A page below a path is below one of the entries of the table at its end. -/
theorem below_iff_exists (short : q.length < 4) :
    Below q v ↔ ∃ i ∈ List.range 512, Below (i :: q) v := by
  constructor
  · rintro ⟨front, whole⟩
    rcases List.eq_nil_or_concat front with rfl | ⟨rest, i, rfl⟩
    · have := congrArg List.length whole
      simp only [List.nil_append, leafPath, List.length_cons] at this
      omega
    · have whole : rest ++ i :: q = leafPath v := by simpa using whole
      exact ⟨i, List.mem_range.mpr (lt_of_mem_leafPath (by rw [← whole]; simp)), rest, whole⟩
  · rintro ⟨i, -, below⟩
    exact (List.suffix_cons i q).trans below

theorem Base.present_of_below {p : Physical} {path : List Nat} (base : Base root p live)
    (mapped : live v = some m) (below : Below path v) (nonempty : path ≠ []) :
    ∃ e, pteAt root p path = some e ∧ isPresent e = true := by
  simp only [Below, leafPath, List.suffix_cons_iff, List.suffix_nil] at below
  rcases below with rfl | rfl | rfl | rfl | rfl
  · obtain ⟨address, leaf⟩ := base.mapped v m mapped
    exact ⟨_, leaf, leafEntry_present _ _⟩
  · exact base.upper_present mapped _ (by simp [upperPaths])
  · exact base.upper_present mapped _ (by simp [upperPaths])
  · exact base.upper_present mapped _ (by simp [upperPaths])
  · exact absurd rfl nonempty

/-! ## The loops -/

/-- The body of a loop over the tables at depth `d`, run on an entry that is present, sweeps the
pages below the entry. -/
def SweepsBelow (root d : Nat) (body : Nat → Nat → Teardown → Option Teardown) : Prop :=
  ∀ (q : List Nat) (n i : Nat) (t : Teardown) (live : Mappings), q.length = d →
    (∀ j ∈ i :: q, j < 512) → Base root t.physical live → tableAt root t.physical q = some n →
    (∀ v m, Below (i :: q) v → live v = some m → m.allocated = true) →
    isPresent (t.physical.memory n i) = true →
    ∃ t' freed, body n i t = some t' ∧ Sweeps root live (Below (i :: q)) freed t t'

/-- The loop over the entries of a table. -/
theorem forPresent_sweeps (indices : List Nat) (sweeps : SweepsBelow root d body)
    (length : q.length = d) (shallow : d ≤ 3) (small : ∀ j ∈ q, j < 512)
    (smallIndices : ∀ i ∈ indices, i < 512) (base : Base root t.physical live)
    (here : tableAt root t.physical q = some n)
    (allocated : ∀ v m, (∃ i ∈ indices, Below (i :: q) v) → live v = some m →
      m.allocated = true) :
    ∃ t' freed, forPresent body n indices t = some t' ∧
      Sweeps root live (fun v => ∃ i ∈ indices, Below (i :: q) v) freed t t' := by
  induction indices generalizing t live with
  | nil => exact ⟨t, [], rfl, Sweeps.refl base (by simp)⟩
  | cons i rest ih =>
    have allocatedHere : ∀ v m, Below (i :: q) v → live v = some m → m.allocated = true :=
      fun v m below => allocated v m ⟨i, by simp, below⟩
    have first : ∃ t' freed, ifPresent body n i t = some t' ∧
        Sweeps root live (Below (i :: q)) freed t t' := by
      unfold ifPresent
      split
      · rename_i present
        refine sweeps q n i t live length ?_ base here allocatedHere present
        intro j mem
        rcases List.mem_cons.mp mem with rfl | mem
        · exact smallIndices j (by simp)
        · exact small j mem
      · -- nothing is mapped below an entry that is not present
        rename_i absent
        refine ⟨t, [], rfl, Sweeps.refl base fun v below => ?_⟩
        cases mapped : live v with
        | none => rfl
        | some m =>
          obtain ⟨e, there, present⟩ := base.present_of_below mapped below (by simp)
          rw [pteAt, entryAt_of_nodeAt here] at there
          exact absurd (Option.some.inj there ▸ present) absent
    obtain ⟨t1, freed1, done1, sweeps1⟩ := first
    obtain ⟨t2, freed2, done2, sweeps2⟩ := ih
      (fun j mem => smallIndices j (List.mem_cons_of_mem _ mem)) sweeps1.base
      (by rw [sweeps1.tables q (by omega), here])
      (by
        rintro v m ⟨j, mem, below⟩ mapped
        exact allocated v m ⟨j, List.mem_cons_of_mem _ mem, below⟩
          (Mappings.without_eq_some.mp mapped).2)
    refine ⟨t2, freed1 ++ freed2, ?_, ?_⟩
    · simp only [forPresent, done1, some_bind, done2]
    · have both := sweeps1.trans base (fun v m mem => allocated v m (by
        rcases mem with below | ⟨j, mem, below⟩
        · exact ⟨i, by simp, below⟩
        · exact ⟨j, List.mem_cons_of_mem _ mem, below⟩)) sweeps2
      have same : (fun v => Below (i :: q) v ∨ ∃ j ∈ rest, Below (j :: q) v) =
          fun v => ∃ j ∈ i :: rest, Below (j :: q) v := by
        funext v
        simp
      rw [← same]
      exact both

/-- Over the whole path of a page only that page is reached. -/
theorem below_leafPath_iff {w : Nat} (smallV : v < 2 ^ 36) (smallW : w < 2 ^ 36) :
    Below (leafPath v) w ↔ w = v := by
  constructor
  · intro below
    have equal := below.eq_of_length (by simp [leafPath])
    exact leafPath_inj smallW smallV equal.symm
  · rintro rfl
    exact List.suffix_refl _

section
variable (base : Base root t.physical live) (smallV : v < 2 ^ 36)
include base smallV

theorem without_below_leafPath : live.without (Below (leafPath v)) = live.set v none := by
  funext w
  by_cases smallW : w < 2 ^ 36
  · have whole := below_leafPath_iff smallV smallW
    by_cases same : w = v
    · simp [Mappings.without, Mappings.set, same, Below]
    · simp [Mappings.without, Mappings.set, same, mt whole.mp same]
  · have absent : live w = none := by
      cases found : live w with
      | none => rfl
      | some m' => exact absurd (base.small w m' found) smallW
    simp [Mappings.without, Mappings.set, absent]

/-- The only entry of level 1 that is reached over the whole path of a page. -/
theorem leafAt_below_leafPath_iff {n i : Nat} (path : leafPath v = i :: q)
    (here : tableAt root t.physical q = some n) (mapped : live v = some m) (a j : Nat) :
    (∃ w m', Below (leafPath v) w ∧ live w = some m' ∧ LeafAt root t.physical w a j) ↔
      a = n ∧ j = i := by
  have tail : [index2 v, index3 v, index4 v] = q ∧ index1 v = i := by
    rw [leafPath, List.cons.injEq] at path
    exact ⟨path.2, path.1⟩
  constructor
  · rintro ⟨w, m', below, found, at_, index⟩
    obtain rfl := (below_leafPath_iff smallV (base.small w m' found)).mp below
    rw [tail.1, here] at at_
    exact ⟨(Option.some.inj at_).symm, index.symm.trans tail.2⟩
  · rintro ⟨rfl, rfl⟩
    exact ⟨v, m, List.suffix_refl _, mapped, by rw [tail.1]; exact here, tail.2⟩

/-- An entry of level 1 that is present maps a page. -/
theorem mapped_of_present {e : BitVec 64} (leaf : pteAt root t.physical (leafPath v) = some e)
    (present : isPresent e = true) : ∃ m, live v = some m ∧ e &&& pteHugePage = 0#64 := by
  cases found : live v with
  | some m =>
    obtain ⟨address, entry⟩ := base.mapped v m found
    rw [leaf] at entry
    refine ⟨m, rfl, ?_⟩
    rw [Option.some.inj entry]
    exact leafEntry_not_huge _ _
  | none =>
    rw [base.unmapped v _ smallV found leaf] at present
    simp [isPresent] at present

end

/-- The closure `free_page`, on an entry of level 1. -/
theorem freePage_sweeps : SweepsBelow root 3 freePage := by
  intro q n i t live length small base here allocated present
  obtain ⟨v, smallV, path⟩ := exists_leafPath (i :: q) (by simp [length]) small
  have leaf : pteAt root t.physical (leafPath v) = some (t.physical.memory n i) := by
    rw [path]
    exact entryAt_of_nodeAt here
  obtain ⟨m, mapped, plain⟩ := mapped_of_present base smallV leaf present
  rw [← path] at allocated ⊢
  have mine := allocated v m (List.suffix_refl _) mapped
  have outside := base.owned v m _ mapped mine leaf
  obtain ⟨p1, done⟩ := PhysicalPageAllocator.free_of_freeable base.tree.allocator outside.freeable
  obtain ⟨⟨tree1, tables1, entries1⟩, outside1⟩ := base.tree.free outside done
  obtain ⟨-, -, -, memory1⟩ := PhysicalPageAllocator.free_spec done
  rw [virtual2physical_physical2virtual] at memory1
  have here1 : tableAt root p1 q = some n := by rw [tables1 q (by omega), here]
  obtain ⟨tree2, entries2, outside2⟩ := tree1.write (i := i) (e := 0#64) (by omega) here1
    (by omega) (by omega)
  rw [← path] at entries2
  -- every entry but that of the page is as before
  have others : ∀ path', path'.length ≤ 4 → path' ≠ leafPath v →
      pteAt root (p1.write n i 0#64) path' = pteAt root t.physical path' := by
    intro path' short ne
    rw [entries2 path' short, if_neg ne, entries1 path' short]
  have otherLeaf : ∀ w, w < 2 ^ 36 → w ≠ v →
      pteAt root (p1.write n i 0#64) (leafPath w) = pteAt root t.physical (leafPath w) := by
    intro w smallW other
    exact others _ (le_refl 4) fun same => other (leafPath_inj smallW smallV same)
  refine ⟨{ t with freed := t.freed ++ [tableOf (t.physical.memory n i)],
                   physical := p1.write n i 0#64 },
    [tableOf (t.physical.memory n i)], ?_, ?_⟩
  · simp only [freePage, if_pos plain, freeEntry, done, some_bind]
  · have only := leafAt_below_leafPath_iff base smallV path here mapped
    refine ⟨?_, rfl, List.nodup_singleton _, ?_, ?_, ?_, ?_, ?_⟩
    · rw [without_below_leafPath base smallV]
      refine base.erase tree2 ?_ otherLeaf ?_
      · intro e there
        rw [entries2 (leafPath v) (le_refl 4), if_pos rfl] at there
        exact (Option.some.inj there).symm
      · intro w m' e other found mine' there
        refine outside2 _ (outside1 _ ?_ (base.owned w m' e found mine' there)).1
        exact fun equal => other (base.apart w v m' m e _ found mapped mine' mine there leaf equal)
    · intro a
      rw [List.mem_singleton]
      constructor
      · rintro rfl
        exact ⟨v, m, _, List.suffix_refl _, mapped, leaf, rfl⟩
      · rintro ⟨w, m', e, below, found, there, rfl⟩
        obtain rfl := (below_leafPath_iff smallV (base.small w m' found)).mp below
        rw [leaf] at there
        rw [Option.some.inj there]
    · intro path' short
      refine tableAt_congr (fun nonempty => ?_)
      rw [others path' (by omega)]
      intro same
      rw [same] at short
      exact absurd short (by simp [leafPath])
    · intro w smallW outside'
      refine otherLeaf w smallW ?_
      rintro rfl
      exact outside' (List.suffix_refl _)
    · intro a j _ leafOf
      rw [write_memory, if_pos ((only a j).mp leafOf)]
    · intro a j unfreed noLeaf
      rw [write_memory, if_neg (fun target => noLeaf ((only a j).mpr target))]
      exact memory1 a j (by simpa using unfreed)

/-- A loop over all entries of the table below a present entry, as the body of the loop above. -/
theorem SweepsBelow.up (sweeps : SweepsBelow root (d + 1) body)
    (length : q.length = d) (shallow : d < 3) (small : ∀ j ∈ i :: q, j < 512)
    (base : Base root t.physical live) (here : tableAt root t.physical q = some n)
    (allocated : ∀ v m, Below (i :: q) v → live v = some m → m.allocated = true)
    (present : isPresent (t.physical.memory n i) = true) :
    ∃ t' freed, forPresent body (tableOf (t.physical.memory n i)) (List.range 512) t = some t' ∧
      Sweeps root live (Below (i :: q)) freed t t' := by
  have next : tableAt root t.physical (i :: q) = some (tableOf (t.physical.memory n i)) :=
    nodeAt_eq_some_iff.mpr ⟨_, entryAt_of_nodeAt here, childTable_of_present present⟩
  have same : (fun v => ∃ j ∈ List.range 512, Below (j :: i :: q) v) = Below (i :: q) := by
    funext v
    exact propext (below_iff_exists (by simp only [List.length_cons]; omega)).symm
  have loop := forPresent_sweeps (List.range 512) sweeps (by simp [length])
    (Nat.succ_le_of_lt shallow) small (fun j mem => List.mem_range.mp mem) base next
    (fun v m below => allocated v m (same ▸ below))
  rw [same] at loop
  exact loop

theorem handle2mbPages_sweeps : SweepsBelow root 2 handle2mbPages := by
  intro q n i t live length small base here allocated present
  have plain := base.tree.plain (i :: q) _ (by simp [length]) (entryAt_of_nodeAt here)
  simp only [handle2mbPages, ne_eq, plain, not_true_eq_false, if_false]
  exact freePage_sweeps.up length (by decide) small base here allocated present

theorem walkL3_sweeps : SweepsBelow root 1 walkL3 := by
  intro q n i t live length small base here allocated present
  exact handle2mbPages_sweeps.up length (by decide) small base here allocated present

/-- The walk below one entry of level 4 that is present. -/
theorem walkL4_sweeps {skip take start : Nat} (small : start < 512)
    (base : Base root t.physical live)
    (present : isPresent (t.physical.memory root start) = true)
    (allocated : ∀ v m, (∃ i ∈ l3Window skip take 0, Below [i, start] v) → live v = some m →
      m.allocated = true) :
    ∃ t' freed, walkL4 root skip take start [0] t = some t' ∧
      Sweeps root live (fun v => ∃ i ∈ l3Window skip take 0, Below [i, start] v) freed t t' := by
  have next : tableAt root t.physical [start] = some (tableOf (t.physical.memory root start)) :=
    childTable_of_present present
  obtain ⟨t', freed, done, base', passed, distinct, mem, tables, leaves, cleared, kept⟩ :=
    forPresent_sweeps (t := { t with followed := t.followed ++ [t.physical.memory root start] }) _
      walkL3_sweeps (by simp) (by decide) (by simpa using small) (fun i member => by
        simp only [l3Window, List.mem_filter, List.mem_range] at member
        exact member.1) base next allocated
  refine ⟨t', freed, ?_, base', passed, distinct, mem, tables, leaves, cleared, kept⟩
  simp only [walkL4, add_zero, done, some_bind]

/-! ## The entries of level 4 that are followed -/

/-- Below level 4 no entry is added to those followed. -/
def KeepsFollowed (body : Nat → Nat → Teardown → Option Teardown) : Prop :=
  ∀ n i t t', body n i t = some t' → t'.followed = t.followed

theorem KeepsFollowed.forPresent (keeps : KeepsFollowed body) {indices : List Nat}
    (done : forPresent body n indices t = some t') : t'.followed = t.followed := by
  induction indices generalizing t with
  | nil => rw [← Option.some.inj done]
  | cons i rest ih =>
    simp only [VirtualMemoryMapper.forPresent, ifPresent, bind_eq_some] at done
    obtain ⟨t1, first, rest⟩ := done
    rw [ih rest]
    split at first
    · exact keeps n i t t1 first
    · rw [← Option.some.inj first]

theorem freePage_keepsFollowed : KeepsFollowed freePage := by
  intro n i t t' done
  simp only [freePage] at done
  split at done
  · simp only [bind_eq_some] at done
    obtain ⟨p, -, done⟩ := done
    rw [← Option.some.inj done]
  · cases done

theorem handle2mbPages_keepsFollowed : KeepsFollowed handle2mbPages := by
  intro n i t t' done
  simp only [handle2mbPages] at done
  split at done
  · exact freePage_keepsFollowed n i t t' done
  · exact freePage_keepsFollowed.forPresent done

theorem walkL3_keepsFollowed : KeepsFollowed walkL3 :=
  fun _ _ _ _ done => handle2mbPages_keepsFollowed.forPresent done

/-- The entry of level 4 is followed, present or not. -/
theorem walkL4_followed {skip take start : Nat}
    (done : walkL4 root skip take start [0] t = some t') :
    t'.followed = t.followed ++ [t.physical.memory root start] := by
  simp only [walkL4, bind_eq_some] at done
  obtain ⟨t1, walked, done⟩ := done
  rw [← Option.some.inj done]
  exact walkL3_keepsFollowed.forPresent walked

end

end Emerald.MemoryManagement
