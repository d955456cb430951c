
import Emerald.MemoryManagement.Proofs.PageTables

/-!
# Mapped pages

What the tables say about the pages that `map` has mapped and `unmap` has not unmapped since. The
bookkeeping in `Base` holds after every sequence of calls; that the entries above level 1 still have
the flags of every mapped page, `Covered`, does not.
-/

namespace Emerald.MemoryManagement
variable {page v virtualAddress : Nat} {physicalAddress : Option Nat} {isAllocated : Bool}

/-- The virtual page of an address, by the 36 bits the tables are indexed with. -/
def pageNumber (address : Nat) : Nat := address / page4K % 2 ^ 36

def index4 (page : Nat) : Nat := page / 2 ^ 27 % 512
def index3 (page : Nat) : Nat := page / 2 ^ 18 % 512
def index2 (page : Nat) : Nat := page / 2 ^ 9 % 512
def index1 (page : Nat) : Nat := page % 512

section
variable (address : Nat)

theorem getL4_eq : getL4 address = index4 (pageNumber address) := by
  simp only [getL4, index4, pageNumber, page4K]
  omega

theorem getL3_eq : getL3 address = index3 (pageNumber address) := by
  simp only [getL3, index3, pageNumber, page4K]
  omega

theorem getL2_eq : getL2 address = index2 (pageNumber address) := by
  simp only [getL2, index2, pageNumber, page4K]
  omega

theorem getL1_eq : getL1 address = index1 (pageNumber address) := by
  simp only [getL1, index1, pageNumber, page4K]
  omega

theorem pageNumber_lt : pageNumber address < 2 ^ 36 := Nat.mod_lt _ (by decide)

end

/-- The paths to the three entries above level 1 that a page is reached over. -/
def upperPaths (page : Nat) : List (List Nat) :=
  [[index4 page], [index3 page, index4 page], [index2 page, index3 page, index4 page]]

/-- The path to its entry of level 1. -/
def leafPath (page : Nat) : List Nat := [index1 page, index2 page, index3 page, index4 page]

theorem leafPath_inj {a b : Nat} (smallA : a < 2 ^ 36) (smallB : b < 2 ^ 36)
    (same : leafPath a = leafPath b) : a = b := by
  simp only [leafPath, List.cons.injEq, index1, index2, index3, index4] at same
  omega

theorem leafPath_ne {a b : Nat} (smallA : a < 2 ^ 36) (smallB : b < 2 ^ 36) (other : a ≠ b) :
    leafPath a ≠ leafPath b :=
  fun same => other (leafPath_inj smallA smallB same)

theorem length_of_mem_upperPaths {path : List Nat} (mem : path ∈ upperPaths page) :
    path.length ≤ 3 := by
  simp only [upperPaths, List.mem_cons, List.not_mem_nil, or_false] at mem
  rcases mem with rfl | rfl | rfl <;> simp

theorem upper_ne_leaf {other : Nat} {path : List Nat} (mem : path ∈ upperPaths page) :
    path ≠ leafPath other := by
  intro same
  have := length_of_mem_upperPaths mem
  rw [same] at this
  simp [leafPath] at this

/-- How a page is mapped: with which flags, and whether `map` has allocated the physical page
itself. -/
structure Mapping where
  flags : PageFlags
  allocated : Bool
  deriving DecidableEq

/-- The mapping of each virtual page. -/
abbrev Mappings := Nat → Option Mapping

def Mappings.set (live : Mappings) (page : Nat) (mapping : Option Mapping) : Mappings :=
  fun v => if v = page then mapping else live v

theorem Mappings.set_of_eq (live : Mappings) (page : Nat) (mapping : Option Mapping) :
    live.set page mapping page = mapping := if_pos rfl

theorem Mappings.set_of_ne (live : Mappings) (mapping : Option Mapping) (other : v ≠ page) :
    live.set page mapping v = live v := if_neg other

theorem Mappings.set_eq_some_iff {live : Mappings} {mapping : Option Mapping} {m : Mapping} :
    live.set page mapping v = some m ↔
      v = page ∧ mapping = some m ∨ v ≠ page ∧ live v = some m := by
  unfold Mappings.set
  split <;> simp [*]

theorem Mappings.set_none_eq_some_iff {live : Mappings} {m : Mapping} :
    live.set page none v = some m ↔ v ≠ page ∧ live v = some m := by
  simp [set_eq_some_iff]

open VirtualMemoryMapper

/-- The bookkeeping of the tables below `root`. The pages that `map` has allocated are neither free
nor tables, and each belongs to one virtual page. -/
structure Base (root : Nat) (p : Physical) (live : Mappings) : Prop where
  tree : Tree root p
  small : ∀ v m, live v = some m → v < 2 ^ 36
  mapped : ∀ v m, live v = some m → ∃ address,
    pteAt root p (leafPath v) = some (leafEntry address m.flags)
  unmapped : ∀ v e, v < 2 ^ 36 → live v = none → pteAt root p (leafPath v) = some e → e = 0#64
  owned : ∀ v m e, live v = some m → m.allocated = true → pteAt root p (leafPath v) = some e →
    Outside root p (tableOf e)
  apart : ∀ v v' m m' e e', live v = some m → live v' = some m' → m.allocated = true →
    m'.allocated = true → pteAt root p (leafPath v) = some e →
    pteAt root p (leafPath v') = some e' → tableOf e = tableOf e' → v = v'

/-- Every entry above level 1 has the flags of the pages mapped below it. -/
def Covered (root : Nat) (p : Physical) (live : Mappings) : Prop :=
  ∀ v m, live v = some m → ∀ path ∈ upperPaths v, ∀ e, pteAt root p path = some e →
    Covers e m.flags

section
variable {root n : Nat} {flags : PageFlags} {p p' : Physical} {live : Mappings} {e : BitVec 64}

/-- The tables of a mapped page are there. -/
theorem Base.upper_present (base : Base root p live) {m : Mapping} (mapped : live v = some m) :
    ∀ path ∈ upperPaths v, ∃ e, pteAt root p path = some e ∧
      isPresent e = true := by
  obtain ⟨address, leaf⟩ := base.mapped v m mapped
  have present : ∀ (i : Nat) (path : List Nat), (∃ n, tableAt root p (i :: path) = some n) →
      ∃ e, pteAt root p (i :: path) = some e ∧ isPresent e = true := by
    rintro i path ⟨n, here⟩
    obtain ⟨e, there, leads⟩ := nodeAt_eq_some_iff.mp here
    refine ⟨e, there, ?_⟩
    by_contra absent
    rw [childTable_of_absent (by simpa using absent)] at leads
    simp at leads
  have third : ∃ n, tableAt root p [index2 v, index3 v, index4 v] = some n := by
    simp only [leafPath, entryAt, Option.map_eq_some_iff] at leaf
    obtain ⟨n, here, -⟩ := leaf
    exact ⟨n, here⟩
  obtain ⟨n, here⟩ := third
  obtain ⟨n', here', -⟩ := nodeAt_tail here
  obtain ⟨n'', here'', -⟩ := nodeAt_tail here'
  intro path mem
  simp only [upperPaths, List.mem_cons, List.not_mem_nil, or_false] at mem
  rcases mem with rfl | rfl | rfl
  · exact present _ _ ⟨n'', here''⟩
  · exact present _ _ ⟨n', here'⟩
  · exact present _ _ ⟨n, here⟩

theorem nodeAt_root (root : Nat) (p : Physical) : tableAt root p [] = some root := rfl

/-- The three levels of `map` for one page. -/
theorem mapLevels_grows {n4 n3 n2 : Nat} {p1 p2 p3 : Physical} (tree : Tree root p)
    (first : mapLevel flags root (index4 v) p = some (n4, p1))
    (second : mapLevel flags n4 (index3 v) p1 = some (n3, p2))
    (third : mapLevel flags n3 (index2 v) p2 = some (n2, p3)) :
    Grows root flags (upperPaths v) p p3 ∧
      tableAt root p3 [index2 v, index3 v, index4 v] = some n2 ∧
      (∀ q, q.length ≤ 3 → q ∉ upperPaths v → tableAt root p3 q = tableAt root p q) ∧
      ∀ page, Outside root p page → ∀ j, p3.memory page j = p.memory page j := by
  obtain ⟨grows4, at4, tables4, memory4⟩ :=
    mapLevel_mapsLevel tree (by simp) (nodeAt_root root p) first
  obtain ⟨grows3, at3, tables3, memory3⟩ := mapLevel_mapsLevel grows4.tree (by simp) at4 second
  obtain ⟨grows2, at2, tables2, memory2⟩ := mapLevel_mapsLevel grows3.tree (by simp) at3 third
  have two := grows4.trans grows3 (by simp)
  refine ⟨two.trans grows2 (by simp), at2, ?_, ?_⟩
  · intro q short other
    simp only [upperPaths, List.mem_cons, List.not_mem_nil, or_false, not_or] at other
    rw [tables2 q short other.2.2, tables3 q short other.2.1, tables4 q short other.1]
  · intro page outside j
    have outside4 := grows4.outside page outside
    rw [memory2 page (grows3.outside page outside4) j, memory3 page outside4 j,
      memory4 page outside j]

theorem pageToMap_spec {address : Nat} (tree : Tree root p)
    (done : pageToMap physicalAddress p = some (address, p')) :
    SameTree root p p' ∧
      (∀ other, Outside root p other →
        Outside root p' other ∧ ∀ j, p'.memory other j = p.memory other j) ∧
      (physicalAddress = none →
        Outside root p' address ∧ ∀ other, Outside root p other → other ≠ address) := by
  cases physicalAddress with
  | some given =>
    obtain ⟨-, rfl⟩ := done
    exact ⟨⟨tree, fun _ _ => rfl, fun _ _ => rfl⟩, fun _ outside => ⟨outside, fun _ => rfl⟩,
      by simp⟩
  | none =>
    obtain ⟨same, outside, -, memory, others⟩ := allocTable_spec tree done
    refine ⟨same, fun other before => ?_,
      fun _ => ⟨outside, fun other before => (others other before).2⟩⟩
    obtain ⟨after, ne⟩ := others other before
    exact ⟨after, fun j => memory other j ne⟩

section
variable (tree : Tree root p) (done : mapPage root flags virtualAddress physicalAddress p = some p')
include tree done

/-- What `map` does for one page, on the entries of the tree. -/
theorem mapPage_spec :
    ∃ address, (∃ q, pageToMap physicalAddress p = some (address, q)) ∧ Tree root p' ∧
      pteAt root p' (leafPath (pageNumber virtualAddress)) = some (leafEntry address flags) ∧
      (∀ path, path.length = 4 → path ≠ leafPath (pageNumber virtualAddress) →
        pteAt root p' path = pteAt root p path ∨
          (pteAt root p path = none ∧ pteAt root p' path = some 0#64)) ∧
      (∀ path ∈ upperPaths (pageNumber virtualAddress), ∀ e, pteAt root p' path = some e →
        Covers e flags) ∧
      (∀ path e, path.length ≤ 3 → pteAt root p path = some e → isPresent e = true →
        ∀ e', pteAt root p' path = some e' → ∀ f, Covers e f → Covers e' f) ∧
      (∀ page, Outside root p page → Outside root p' page) ∧
      (physicalAddress = none →
        Outside root p' address ∧ ∀ page, Outside root p page → page ≠ address) := by
  simp only [mapPage, bind_eq_some, Prod.exists, getL4_eq, getL3_eq, getL2_eq, getL1_eq] at done
  obtain ⟨address, p1, chosen, n4, p2, first, n3, p3, second, n2, p4, third, last⟩ := done
  cases last
  generalize pageNumber virtualAddress = v at *
  obtain ⟨⟨tree1, -, entries1⟩, outside1, fresh⟩ := pageToMap_spec tree chosen
  obtain ⟨grows, here, -⟩ := mapLevels_grows tree1 first second third
  obtain ⟨tree', entries, outside⟩ := grows.tree.write (i := index1 v)
    (e := leafEntry address flags) (by simp) here (by simp) (by simp)
  have above : ∀ path, path.length ≤ 3 →
      pteAt root (p4.write n2 (index1 v) (leafEntry address flags)) path = pteAt root p4 path := by
    intro path short
    rw [entries path (by omega), if_neg]
    rintro rfl
    simp at short
  refine ⟨address, ⟨p1, chosen⟩, tree', ?_, ?_, ?_, ?_, ?_, ?_⟩
  · rw [leafPath, entries _ (by simp), if_pos rfl]
  · intro path length other
    rw [entries path (by omega), if_neg (by exact other), ← entries1 path (by omega)]
    exact grows.leaves path length
  · intro path mem e there
    obtain ⟨e', there', -, covers⟩ := grows.touched path mem
    rw [above path (length_of_mem_upperPaths mem), there'] at there
    exact Option.some.inj there ▸ covers
  · intro path e short there present e' there' f covers
    rw [← entries1 path (by omega)] at there
    obtain ⟨e'', there'', -, -, more⟩ := grows.upper path e short there present
    rw [above path short, there''] at there'
    exact Option.some.inj there' ▸ more f covers
  · exact fun page before => outside page (grows.outside page (outside1 page before).1)
  · intro none
    obtain ⟨new, others⟩ := fresh none
    exact ⟨outside address (grows.outside address new), others⟩

/-- What `map` leaves alone for one page: the tables that are there already, and every page that is
neither free nor a table. -/
theorem mapPage_frame : (∀ q, q.length ≤ 3 →
      (q ∈ upperPaths (pageNumber virtualAddress) → (tableAt root p q).isSome = true) →
      tableAt root p' q = tableAt root p q) ∧
      ∀ page, Outside root p page → ∀ j, p'.memory page j = p.memory page j := by
  simp only [mapPage, bind_eq_some, Prod.exists, getL4_eq, getL3_eq, getL2_eq, getL1_eq] at done
  obtain ⟨address, p1, chosen, n4, p2, first, n3, p3, second, n2, p4, third, last⟩ := done
  cases last
  generalize pageNumber virtualAddress = v at *
  obtain ⟨⟨tree1, sameTables, -⟩, outside1, -⟩ := pageToMap_spec tree chosen
  obtain ⟨grows, here, tables, memory⟩ := mapLevels_grows tree1 first second third
  constructor
  · intro q short there
    obtain ⟨-, entries, -⟩ := grows.tree.write (i := index1 v)
      (e := leafEntry address flags) (by simp) here (by simp) (by simp)
    have atLeaf : tableAt root (p4.write n2 (index1 v) (leafEntry address flags)) q =
        tableAt root p4 q := by
      refine tableAt_congr (fun nonempty => ?_)
      rw [entries q (by omega), if_neg]
      rintro rfl
      simp at short
    rw [atLeaf, ← sameTables q short]
    by_cases touched : q ∈ upperPaths v
    · -- a table that was there is where it was
      have some := there touched
      rw [← sameTables q short] at some
      obtain ⟨table, before⟩ := Option.isSome_iff_exists.mp some
      cases q with
      | nil => rfl
      | cons i rest =>
        obtain ⟨e, entry, leads⟩ := nodeAt_eq_some_iff.mp before
        obtain ⟨present, rfl⟩ := childTable_eq_some_iff.mp leads
        obtain ⟨e', entry', present', same, -⟩ := grows.upper _ e short entry present
        rw [before]
        exact nodeAt_eq_some_iff.mpr ⟨e', entry', childTable_eq_some_iff.mpr ⟨present', same⟩⟩
    · exact tables q short touched
  · intro page outside j
    obtain ⟨before, same⟩ := outside1 page outside
    have notHere : page ≠ n2 := by
      rintro rfl
      exact (grows.outside page before).noTable _ (by simp) here
    rw [write_memory, if_neg (fun target => notHere target.1), memory page before j, same j]

end

section
variable (base : Base root p live)
  (done : mapPage root flags virtualAddress physicalAddress p = some p')
include base done

/-- The entry of a page that was mapped before stays when another page is mapped. -/
theorem Base.leaf_mapPage {m : Mapping}
    (other : v ≠ pageNumber virtualAddress) (here : live v = some m) :
    pteAt root p' (leafPath v) = pteAt root p (leafPath v) := by
  obtain ⟨-, -, -, -, leaves, -⟩ := mapPage_spec base.tree done
  rcases leaves _ rfl (leafPath_ne (base.small v m here) (pageNumber_lt _) other) with
    same | ⟨absent, -⟩
  · exact same
  · obtain ⟨_, there⟩ := base.mapped v m here
    rw [there] at absent
    simp at absent

/-- Mapping a page keeps the flags above the pages of any part of the mappings, and adds those above
the page. -/
theorem Base.covered_mapPage {part : Mappings}
    (inside : ∀ v m, part v = some m → live v = some m) (covered : Covered root p part) :
    Covered root p' (part.set (pageNumber virtualAddress)
      (some ⟨flags, physicalAddress.isNone⟩)) := by
  obtain ⟨-, -, -, -, -, covers, keeps, -⟩ := mapPage_spec base.tree done
  intro v m here path mem e there
  rcases Mappings.set_eq_some_iff.mp here with ⟨rfl, same⟩ | ⟨-, here⟩
  · cases same
    exact covers path mem e there
  · obtain ⟨e', there', present⟩ := base.upper_present (inside v m here) path mem
    exact keeps path e' (length_of_mem_upperPaths mem) there' present e there m.flags
      (covered v m here path mem e' there')

/-- One page mapped. -/
theorem Base.mapPage : Base root p' (live.set (pageNumber virtualAddress)
      (some ⟨flags, physicalAddress.isNone⟩)) := by
  obtain ⟨address, -, tree, leaf, leaves, -, -, outside, fresh⟩ := mapPage_spec base.tree done
  have smallPage := pageNumber_lt virtualAddress
  have older : ∀ v m, v ≠ pageNumber virtualAddress → live v = some m →
      pteAt root p' (leafPath v) = pteAt root p (leafPath v) :=
    fun v m => base.leaf_mapPage done
  generalize pageNumber virtualAddress = page at *
  -- the allocated page of such a page is not the one just allocated
  have elsewhere : ∀ v m e e', v ≠ page → live v = some m → m.allocated = true →
      physicalAddress.isNone = true → pteAt root p' (leafPath v) = some e →
      pteAt root p' (leafPath page) = some e' → tableOf e ≠ tableOf e' := by
    intro v m e e' other here allocated none there there'
    have none := Option.isNone_iff_eq_none.mp none
    obtain ⟨new, others⟩ := fresh none
    rw [older v m other here] at there
    rw [leaf] at there'
    rw [← Option.some.inj there', tableOf_leafEntry new.frame]
    exact others _ (base.owned v m e here allocated there)
  refine ⟨tree, ?_, ?_, ?_, ?_, ?_⟩
  · intro v m here
    rcases Mappings.set_eq_some_iff.mp here with ⟨rfl, -⟩ | ⟨-, here⟩
    · exact smallPage
    · exact base.small v m here
  · intro v m here
    rcases Mappings.set_eq_some_iff.mp here with ⟨rfl, same⟩ | ⟨other, here⟩
    · cases same
      exact ⟨address, leaf⟩
    · rw [older v m other here]
      exact base.mapped v m here
  · intro v e small absent there
    by_cases same : v = page
    · rw [same, Mappings.set_of_eq] at absent
      cases absent
    · rw [Mappings.set_of_ne _ _ same] at absent
      rcases leaves _ rfl (leafPath_ne small smallPage same) with equal | ⟨-, zero⟩
      · rw [equal] at there
        exact base.unmapped v e small absent there
      · rw [zero] at there
        exact (Option.some.inj there).symm
  · intro v m e here allocated there
    rcases Mappings.set_eq_some_iff.mp here with ⟨rfl, same⟩ | ⟨other, here⟩
    · cases same
      rw [leaf] at there
      obtain ⟨new, -⟩ := fresh (Option.isNone_iff_eq_none.mp allocated)
      rw [← Option.some.inj there, tableOf_leafEntry new.frame]
      exact new
    · rw [older v m other here] at there
      exact outside _ (base.owned v m e here allocated there)
  · intro v v' m m' e e' here here' allocated allocated' there there' equal
    rcases Mappings.set_eq_some_iff.mp here with ⟨same, here⟩ | ⟨other, here⟩ <;>
      rcases Mappings.set_eq_some_iff.mp here' with ⟨same', here'⟩ | ⟨other', here'⟩
    · rw [same, same']
    · cases here
      exact absurd equal.symm
        (elsewhere v' m' e' e other' here' allocated' allocated there' (same ▸ there))
    · cases here'
      exact absurd equal (elsewhere v m e e' other here allocated allocated' there (same' ▸ there'))
    · rw [older v m other here] at there
      rw [older v' m' other' here'] at there'
      exact base.apart v v' m m' e e' here here' allocated allocated' there there' equal

end

/-- The three levels of `unmap` for one page. -/
theorem unmapLevels_spec {n4 n3 n2 : Nat} {p1 p2 p3 : Physical} (tree : Tree root p)
    (first : unmapLevel flags root (index4 v) p = some (n4, p1))
    (second : unmapLevel flags n4 (index3 v) p1 = some (n3, p2))
    (third : unmapLevel flags n3 (index2 v) p2 = some (n2, p3)) :
    Tree root p3 ∧ tableAt root p3 [index2 v, index3 v, index4 v] = some n2 ∧
      (∀ q, q.length ≤ 4 → pteAt root p3 q =
        if q ∈ upperPaths v then (pteAt root p q).map (· &&& ~~~flags.bits) else pteAt root p q) ∧
      ∀ page, Outside root p page →
        Outside root p3 page ∧ ∀ j, p3.memory page j = p.memory page j := by
  obtain ⟨tree1, at4, -, entries1, outside1⟩ := unmapLevel_spec tree (by simp)
    (nodeAt_root root p) first
  obtain ⟨tree2, at3, -, entries2, outside2⟩ := unmapLevel_spec tree1 (by simp) at4 second
  obtain ⟨tree3, at2, -, entries3, outside3⟩ := unmapLevel_spec tree2 (by simp) at3 third
  refine ⟨tree3, at2, ?_, ?_⟩
  · intro q short
    rw [entries3 q short, entries2 q short, entries1 q short]
    -- the three paths have ne lengths, so each entry is touched at most once
    by_cases level4 : q = [index4 v]
    · simp [level4, upperPaths]
    · by_cases level3 : q = [index3 v, index4 v]
      · simp [level3, upperPaths]
      · by_cases level2 : q = [index2 v, index3 v, index4 v]
        · simp [level2, upperPaths]
        · simp [level4, level3, upperPaths]
  · intro page before
    obtain ⟨before1, same1⟩ := outside1 page before
    obtain ⟨before2, same2⟩ := outside2 page before1
    obtain ⟨before3, same3⟩ := outside3 page before2
    exact ⟨before3, fun j => ((same3 j).trans (same2 j)).trans (same1 j)⟩

/-- Tables in which each page that is still mapped has the entry it had. -/
theorem Base.of_kept {root' : Nat} {live' : Mappings} (base : Base root p live)
    (tree : Tree root' p')
    (kept : ∀ v m, live' v = some m →
      live v = some m ∧ pteAt root' p' (leafPath v) = pteAt root p (leafPath v))
    (unmapped : ∀ v e, v < 2 ^ 36 → live' v = none → pteAt root' p' (leafPath v) = some e →
      e = 0#64)
    (outside : ∀ v m e, live' v = some m → m.allocated = true →
      pteAt root p (leafPath v) = some e → Outside root' p' (tableOf e)) :
    Base root' p' live' := by
  refine ⟨tree, fun v m here => base.small v m (kept v m here).1, ?_, unmapped, ?_, ?_⟩
  · intro v m here
    obtain ⟨mapped, same⟩ := kept v m here
    rw [same]
    exact base.mapped v m mapped
  · intro v m e here allocated there
    rw [(kept v m here).2] at there
    exact outside v m e here allocated there
  · intro v v' m m' e e' here here' allocated allocated' there there' equal
    obtain ⟨mapped, same⟩ := kept v m here
    obtain ⟨mapped', same'⟩ := kept v' m' here'
    rw [same] at there
    rw [same'] at there'
    exact base.apart v v' m m' e e' mapped mapped' allocated allocated' there there' equal

/-- One page taken away: its entry is cleared, the other entries of level 1 are as they were, and
the allocated pages of the others stay allocated. -/
theorem Base.erase (base : Base root p live) (tree : Tree root p')
    (zero : ∀ e, pteAt root p' (leafPath page) = some e → e = 0#64)
    (others : ∀ v, v < 2 ^ 36 → v ≠ page → pteAt root p' (leafPath v) = pteAt root p (leafPath v))
    (outside : ∀ v m e, v ≠ page → live v = some m → m.allocated = true →
      pteAt root p (leafPath v) = some e → Outside root p' (tableOf e)) :
    Base root p' (live.set page none) := by
  refine base.of_kept tree ?_ ?_ ?_
  · intro v m here
    obtain ⟨other, mapped⟩ := Mappings.set_none_eq_some_iff.mp here
    exact ⟨mapped, others v (base.small v m mapped) other⟩
  · intro v e small absent there
    by_cases same : v = page
    · rw [same] at there
      exact zero e there
    · rw [Mappings.set_of_ne _ _ same] at absent
      rw [others v small same] at there
      exact base.unmapped v e small absent there
  · intro v m e here
    obtain ⟨other, mapped⟩ := Mappings.set_none_eq_some_iff.mp here
    exact outside v m e other mapped

/-- `unmap` with the page it frees: nothing of the tree changes. -/
theorem releasePage_spec (tree : Tree root p)
    (contract : isAllocated = true → Outside root p (tableOf e))
    (done : releasePage isAllocated e p = some p') :
    SameTree root p p' ∧
      ∀ other, (isAllocated = true → other ≠ tableOf e) → Outside root p other →
        Outside root p' other ∧ ∀ j, p'.memory other j = p.memory other j := by
  unfold releasePage at done
  split at done
  · rename_i allocated
    obtain ⟨same, outside⟩ := tree.free (contract allocated) done
    exact ⟨same, fun other apart => outside other (apart allocated)⟩
  · cases done
    exact ⟨⟨tree, fun _ _ => rfl, fun _ _ => rfl⟩, fun _ _ outside => ⟨outside, fun _ => rfl⟩⟩

/-- What `unmap` does for one page, on the entries of the tree. -/
theorem unmapPage_spec (tree : Tree root p) (contract : isAllocated = true → ∀ e,
      pteAt root p (leafPath (pageNumber virtualAddress)) = some e → isPresent e = true →
      Outside root p (tableOf e))
    (done : unmapPage root flags isAllocated virtualAddress p = some p') :
    ∃ e, pteAt root p (leafPath (pageNumber virtualAddress)) = some e ∧ isPresent e = true ∧
      Tree root p' ∧
      (∀ q, q.length ≤ 4 → pteAt root p' q =
        if q = leafPath (pageNumber virtualAddress) then some 0#64
        else if q ∈ upperPaths (pageNumber virtualAddress) then
          (pteAt root p q).map (· &&& ~~~flags.bits)
        else pteAt root p q) ∧
      ∀ page, (isAllocated = true → page ≠ tableOf e) → Outside root p page →
        Outside root p' page ∧ ∀ j, p'.memory page j = p.memory page j := by
  simp only [unmapPage, bind_eq_some, Prod.exists, Option.ite_none_right_eq_some,
    Option.some.injEq, getL4_eq, getL3_eq, getL2_eq, getL1_eq] at done
  obtain ⟨n4, p1, first, n3, p2, second, n2, p3, third, present, p4, released, rfl⟩ := done
  generalize pageNumber virtualAddress = v at *
  obtain ⟨tree3, here, upper, outside⟩ := unmapLevels_spec tree first second third
  have leaf : pteAt root p (leafPath v) = some (p3.memory n2 (index1 v)) := by
    have unchanged := upper (leafPath v) (le_refl 4)
    rw [if_neg (fun mem => upper_ne_leaf mem rfl)] at unchanged
    rw [← unchanged]
    exact entryAt_of_nodeAt here
  have freed : isAllocated = true → Outside root p3 (tableOf (p3.memory n2 (index1 v))) :=
    fun allocated => (outside _ (contract allocated _ leaf present)).1
  obtain ⟨⟨tree4, tables4, entries4⟩, outside4⟩ := releasePage_spec tree3 freed released
  have here4 : tableAt root p4 [index2 v, index3 v, index4 v] = some n2 := by
    rw [tables4 _ (by simp), here]
  obtain ⟨tree5, entries5, outside5⟩ := tree4.write (i := index1 v) (e := 0#64) (by simp)
    here4 (by simp) (by simp)
  refine ⟨_, leaf, present, tree5, ?_, ?_⟩
  · intro q short
    rw [entries5 q short, entries4 q short, upper q short]
    rfl
  · intro page apart before
    obtain ⟨before3, same3⟩ := outside page before
    obtain ⟨before4, same4⟩ := outside4 page apart before3
    refine ⟨outside5 page before4, fun j => ?_⟩
    rw [write_memory, if_neg, same4 j, same3 j]
    rintro ⟨rfl, -⟩
    exact before4.noTable _ (by simp) here4

/-- A present entry of level 1 is that of a mapped page. -/
theorem Base.mapped_of_leaf (base : Base root p live)
    (leaf : pteAt root p (leafPath (pageNumber virtualAddress)) = some e)
    (present : isPresent e = true) : ∃ m, live (pageNumber virtualAddress) = some m := by
  cases found : live (pageNumber virtualAddress) with
  | some m => exact ⟨m, rfl⟩
  | none =>
    rw [base.unmapped _ e (pageNumber_lt _) found leaf] at present
    simp [isPresent] at present

section
variable (base : Base root p live)
  (contract : ∀ m, live (pageNumber virtualAddress) = some m → isAllocated = true →
    m.allocated = true)
include base contract

/-- It leads to a page of its own if `map` has allocated that. -/
theorem Base.owned_of_leaf (allocated : isAllocated = true) (e : BitVec 64)
    (leaf : pteAt root p (leafPath (pageNumber virtualAddress)) = some e)
    (present : isPresent e = true) : Outside root p (tableOf e) := by
  obtain ⟨m, found⟩ := base.mapped_of_leaf leaf present
  exact base.owned _ m e found (contract m found allocated) leaf

/-- One page unmapped. -/
theorem Base.unmapPage (done : unmapPage root flags isAllocated virtualAddress p = some p') :
    Base root p' (live.set (pageNumber virtualAddress) none) ∧
      ∀ q, q.length ≤ 3 → pteAt root p' q =
        if q ∈ upperPaths (pageNumber virtualAddress) then
          (pteAt root p q).map (· &&& ~~~flags.bits)
        else pteAt root p q := by
  have small := pageNumber_lt virtualAddress
  obtain ⟨e, leaf, present, tree, entries, outside⟩ :=
    unmapPage_spec base.tree (base.owned_of_leaf contract) done
  obtain ⟨m, found⟩ := base.mapped_of_leaf leaf present
  generalize pageNumber virtualAddress = page at *
  refine ⟨base.erase tree ?_ ?_ ?_, ?_⟩
  · intro e' there
    rw [entries (leafPath page) (le_refl 4), if_pos rfl] at there
    exact (Option.some.inj there).symm
  · intro v smallV other
    rw [entries (leafPath v) (le_refl 4), if_neg (leafPath_ne smallV small other),
      if_neg (fun mem => upper_ne_leaf mem rfl)]
  · intro v m' e' other found' allocated' there
    refine (outside _ ?_ (base.owned v m' e' found' allocated' there)).1
    intro allocated equal
    exact other (base.apart v page m' m e' e found' found allocated'
      (contract m found allocated) there leaf equal)
  · intro q short
    rw [entries q (by omega), if_neg]
    rintro rfl
    simp [leafPath] at short

end

/-! ## Runs of pages -/

theorem mapPages_succ :
    mapPages root flags (n + 1) virtualAddress physicalAddress p = some p' ↔
      ∃ q, mapPage root flags virtualAddress physicalAddress p = some q ∧
        mapPages root flags n (wrapAdd virtualAddress page4K)
          (physicalAddress.map (wrapAdd · page4K)) q = some p' :=
  Option.bind_eq_some_iff

theorem unmapPages_succ :
    unmapPages root flags isAllocated (n + 1) virtualAddress p = some p' ↔
      ∃ q, unmapPage root flags isAllocated virtualAddress p = some q ∧
        unmapPages root flags isAllocated n (wrapAdd virtualAddress page4K) q = some p' :=
  Option.bind_eq_some_iff

end

end Emerald.MemoryManagement
