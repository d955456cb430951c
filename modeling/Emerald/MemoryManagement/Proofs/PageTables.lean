
import Emerald.MemoryManagement.Proofs.PageEntries

/-!
# Page tables as trees

The tables of a virtual memory mapper form a tree: no table is reached over two paths, and none of
them is a free page. Each level of `map` and of `unmap` changes one entry of the tree, and perhaps
hangs an empty table below it.
-/

namespace Emerald.MemoryManagement

open PhysicalPageAllocator (allocZeroed free allocZeroed_spec free_spec)

variable {entry : BitVec 64} {table n i : Nat} {path : List Nat}

/-- The table an entry leads to. -/
def childTable (entry : BitVec 64) : Option Nat :=
  if isPresent entry then some (tableOf entry) else none

theorem childTable_of_present (present : isPresent entry = true) :
    childTable entry = some (tableOf entry) := if_pos present

theorem childTable_of_absent (absent : isPresent entry = false) : childTable entry = none := by
  simp [childTable, absent]

theorem childTable_eq_some_iff :
    childTable entry = some table ↔ isPresent entry = true ∧ tableOf entry = table := by
  rw [childTable, Option.ite_none_right_eq_some, Option.some.injEq]

@[simp] theorem childTable_zero : childTable 0#64 = none := by decide

@[simp] theorem childTable_or_bits (entry : BitVec 64) (flags : PageFlags) :
    childTable (entry ||| flags.bits) = childTable entry := by
  simp [childTable]

@[simp] theorem childTable_and_not_bits (entry : BitVec 64) (flags : PageFlags) :
    childTable (entry &&& ~~~flags.bits) = childTable entry := by
  simp [childTable]

/-- The table at the end of a path, in the tree below `root`. -/
abbrev tableAt (root : Nat) (p : Physical) (path : List Nat) : Option Nat :=
  nodeAt childTable p.memory root path

/-- The entry at the end of a path. -/
abbrev pteAt (root : Nat) (p : Physical) (path : List Nat) : Option (BitVec 64) :=
  entryAt childTable p.memory root path

/-- A table is where the entry of its path leads to. -/
theorem tableAt_congr {root : Nat} {p p' : Physical} (same : path ≠ [] →
      (pteAt root p' path).bind childTable = (pteAt root p path).bind childTable) :
    tableAt root p' path = tableAt root p path := by
  cases path with
  | nil => rfl
  | cons i rest =>
    rw [tableAt, tableAt, nodeAt_cons, nodeAt_cons]
    exact same (by simp)

/-- The tables are a tree of pages that are not free, without huge pages. -/
structure Tree (root : Nat) (p : Physical) : Prop where
  unshared : Unshared childTable 3 p.memory root
  tables : ∀ path table, path.length ≤ 3 → tableAt root p path = some table →
    IsFrame table ∧ physical2virtual table ∉ p.allocator.freeList
  plain : ∀ path e, path.length = 3 → pteAt root p path = some e → e &&& pteHugePage = 0#64
  allocator : PhysicalPageAllocator.Wf p.allocator

/-- A page of the allocator that is neither free nor a table of the tree. -/
structure Outside (root : Nat) (p : Physical) (page : Nat) : Prop where
  frame : IsFrame page
  freeable : PhysicalPageAllocator.Freeable p.allocator (physical2virtual page)
  used : physical2virtual page ∉ p.allocator.freeList
  noTable : ∀ path, path.length ≤ 3 → tableAt root p path ≠ some page

/-- The flags the entry must have for a page with these flags to have its permissions. -/
def Covers (entry : BitVec 64) (flags : PageFlags) : Prop :=
  (flags.writable = true → isWritable entry = true) ∧
    (flags.user = true → isUserPage entry = true)

/-- What `map` does to the tree: the touched entries lead somewhere and have the flags, no entry
above level 1 loses anything, and those of level 1 only appear, empty, in new tables. -/
structure Grows (root : Nat) (flags : PageFlags) (touched : List (List Nat)) (p p' : Physical) :
    Prop where
  tree : Tree root p'
  touched : ∀ path ∈ touched, ∃ e, pteAt root p' path = some e ∧ isPresent e = true ∧
    Covers e flags
  upper : ∀ path e, path.length ≤ 3 → pteAt root p path = some e → isPresent e = true →
    ∃ e', pteAt root p' path = some e' ∧ isPresent e' = true ∧ tableOf e' = tableOf e ∧
      ∀ f, Covers e f → Covers e' f
  leaves : ∀ path, path.length = 4 → pteAt root p' path = pteAt root p path ∨
    (pteAt root p path = none ∧ pteAt root p' path = some 0#64)
  outside : ∀ page, Outside root p page → Outside root p' page

section
variable {root page : Nat} {flags : PageFlags} {p p' p'' : Physical} {e : BitVec 64}

theorem Grows.trans {first second : List (List Nat)} (one : Grows root flags first p p')
    (two : Grows root flags second p' p'') (short : ∀ path ∈ first, path.length ≤ 3) :
    Grows root flags (first ++ second) p p'' := by
  refine ⟨two.tree, ?_, ?_, ?_, fun page outside => two.outside page (one.outside page outside)⟩
  · intro path mem
    rcases List.mem_append.mp mem with earlier | later
    · obtain ⟨e, here, present, covers⟩ := one.touched path earlier
      obtain ⟨e', here', present', -, more⟩ := two.upper path e (short path earlier) here present
      exact ⟨e', here', present', more flags covers⟩
    · exact two.touched path later
  · intro path e short' here present
    obtain ⟨e', here', present', same, more⟩ := one.upper path e short' here present
    obtain ⟨e'', here'', present'', same', more'⟩ := two.upper path e' short' here' present'
    exact ⟨e'', here'', present'', same'.trans same, fun f covers => more' f (more f covers)⟩
  · intro path length
    rcases two.leaves path length with same | ⟨absent, zero⟩
    · rw [same]
      exact one.leaves path length
    · rcases one.leaves path length with same | ⟨absent', zero'⟩
      · exact .inr ⟨same ▸ absent, zero⟩
      · rw [zero'] at absent
        simp at absent

/-- Nothing of the tree has changed. -/
structure SameTree (root : Nat) (p p' : Physical) : Prop where
  tree : Tree root p'
  tables : ∀ path, path.length ≤ 3 → tableAt root p' path = tableAt root p path
  entries : ∀ path, path.length ≤ 4 → pteAt root p' path = pteAt root p path

/-- A page that is not free stays outside the tree. -/
theorem SameTree.outside (same : SameTree root p p') (outside : Outside root p page)
    (freeable : PhysicalPageAllocator.Freeable p'.allocator (physical2virtual page))
    (used : physical2virtual page ∉ p'.allocator.freeList) : Outside root p' page := by
  refine ⟨outside.frame, freeable, used, fun path short here => ?_⟩
  rw [same.tables path short] at here
  exact outside.noTable path short here

/-- Changes outside the tables of the tree: nothing of the tree changes. -/
theorem Tree.frame (tree : Tree root p) (wf : PhysicalPageAllocator.Wf p'.allocator)
    (same : ∀ path n i, path.length ≤ 3 → tableAt root p path = some n →
      p'.memory n i = p.memory n i)
    (used : ∀ path n, path.length ≤ 3 → tableAt root p path = some n →
      physical2virtual n ∉ p'.allocator.freeList) : SameTree root p p' := by
  have child : ∀ path n i, path.length < 3 → tableAt root p path = some n →
      childTable (p'.memory n i) = childTable (p.memory n i) := fun path n i less here => by
    rw [same path n i (le_of_lt less) here]
  have nodes := nodeAt_congr child
  have entries := entryAt_frame same
  refine ⟨⟨tree.unshared.congr child, ?_, ?_, wf⟩, nodes, entries⟩
  · intro path table short here
    rw [tableAt, nodes path short] at here
    exact ⟨(tree.tables path table short here).1, used path table short here⟩
  · intro path e length there
    rw [pteAt, entries path (by omega)] at there
    exact tree.plain path e length there

/-- A page off the free list, zeroed: nothing of the tree changes. -/
theorem Tree.alloc (tree : Tree root p) (done : allocZeroed p = some (page, p')) :
    SameTree root p p' ∧ Outside root p' (virtual2physical page) ∧
      ∀ other, Outside root p other → Outside root p' other ∧ other ≠ virtual2physical page := by
  obtain ⟨split, memory, limits⟩ := allocZeroed_spec done
  obtain ⟨wf, absent, freeable⟩ := tree.allocator.alloc done
  obtain ⟨above, frame⟩ := isFrame_of_freeable wf freeable
  have mem : page ∈ p.allocator.freeList := by simp [split]
  have back := physical2virtual_virtual2physical above
  have apart : ∀ path n, path.length ≤ 3 → tableAt root p path = some n →
      n ≠ virtual2physical page := by
    intro path n short here same
    rw [same] at here
    apply (tree.tables path _ short here).2
    rw [back]
    exact mem
  have same : ∀ path n i, path.length ≤ 3 → tableAt root p path = some n →
      p'.memory n i = p.memory n i := by
    intro path n i short here
    rw [memory]
    simp [PhysicalMemory.fill, apart path n short here]
  have fewer : ∀ x, x ∈ p'.allocator.freeList → x ∈ p.allocator.freeList := fun x there => by
    simp [split, there]
  have sameTree := tree.frame wf same
    (fun path n short here there => (tree.tables path n short here).2 (fewer _ there))
  refine ⟨sameTree, ⟨frame, ?_, ?_, ?_⟩, ?_⟩
  · rw [back]
    exact freeable
  · rw [back]
    exact absent
  · intro path short here
    rw [sameTree.tables path short] at here
    exact apart path _ short here rfl
  · intro other outside
    refine ⟨sameTree.outside outside (outside.freeable.congr limits)
      fun there => outside.used (fewer _ there), ?_⟩
    intro same
    apply outside.used
    rw [same, back]
    exact mem

theorem write_memory (p : Physical) (table index : Nat) (entry : BitVec 64) (a i : Nat) :
    (p.write table index entry).memory a i =
      if a = table ∧ i = index then entry else p.memory a i := rfl

/-- An entry overwritten, above level 1 by one that leads to the same table: the only change. -/
theorem Tree.write (tree : Tree root p) (short : path.length ≤ 3)
    (here : tableAt root p path = some n)
    (same : path.length < 3 → childTable e = childTable (p.memory n i))
    (plain : path.length < 3 → p.memory n i &&& pteHugePage = 0#64 → e &&& pteHugePage = 0#64) :
    Tree root (p.write n i e) ∧
      (∀ q, q.length ≤ 4 → pteAt root (p.write n i e) q =
        if q = i :: path then some e else pteAt root p q) ∧
      ∀ page, Outside root p page → Outside root (p.write n i e) page := by
  have child : ∀ q m j, q.length < 3 → tableAt root p q = some m →
      childTable ((p.write n i e).memory m j) = childTable (p.memory m j) := by
    intro q m j less there
    rw [write_memory]
    split
    · rename_i target
      obtain ⟨rfl, rfl⟩ := target
      have equal := tree.unshared q path m (le_of_lt less) short there here
      exact same (equal ▸ less)
    · rfl
  have nodes := nodeAt_congr child
  have entries : ∀ q, q.length ≤ 4 → pteAt root (p.write n i e) q =
      if q = i :: path then some e else pteAt root p q := by
    intro q short'
    cases q with
    | nil => simp [entryAt]
    | cons j q =>
      have short'' : q.length ≤ 3 := Nat.le_of_succ_le_succ short'
      simp only [entryAt, nodes q short'']
      cases there : nodeAt childTable p.memory root q with
      | none =>
        have elsewhere : j :: q ≠ i :: path := by
          intro equal
          rw [(List.cons.inj equal).2] at there
          rw [tableAt, there] at here
          simp at here
        rw [if_neg elsewhere]
        rfl
      | some m =>
        rw [Option.map_some, write_memory]
        by_cases target : m = n ∧ j = i
        · obtain ⟨rfl, rfl⟩ := target
          have equal := tree.unshared q path m short'' short there here
          rw [if_pos ⟨rfl, rfl⟩, if_pos (by rw [equal])]
        · have elsewhere : j :: q ≠ i :: path := by
            intro equal
            obtain ⟨rfl, rfl⟩ := List.cons.inj equal
            rw [tableAt, there] at here
            exact target ⟨Option.some.inj here, rfl⟩
          rw [if_neg target, if_neg elsewhere]
          rfl
  refine ⟨⟨tree.unshared.congr child, ?_, ?_, tree.allocator⟩, entries, ?_⟩
  · intro q table short' there
    rw [tableAt, nodes q short'] at there
    exact tree.tables q table short' there
  · intro q e' length there
    rw [entries q (by omega)] at there
    split at there
    · rename_i target
      rw [target] at length
      rw [← Option.some.inj there]
      refine plain (by simpa using Nat.lt_of_lt_of_eq (Nat.lt_succ_self _) length) ?_
      exact tree.plain (i :: path) _ length (entryAt_of_nodeAt here)
    · exact tree.plain q e' length there
  · intro page outside
    refine ⟨outside.frame, outside.freeable, outside.used, fun q short' there => ?_⟩
    rw [tableAt, nodes q short'] at there
    exact outside.noTable q short' there

/-- A new table hung below an absent entry. -/
theorem Tree.link (tree : Tree root p) (short : path.length < 3)
    (here : tableAt root p path = some n) (absent : isPresent (p.memory n i) = false)
    (fresh : Outside root p table) (zero : ∀ j, p.memory table j = 0#64)
    (leads : childTable e = some table) (plain : e &&& pteHugePage = 0#64) :
    Tree root (p.write n i e) ∧
      (∀ q, q.length ≤ 4 → q ≠ i :: path → pteAt root (p.write n i e) q = pteAt root p q ∨
        (pteAt root p q = none ∧ pteAt root (p.write n i e) q = some 0#64)) ∧
      pteAt root (p.write n i e) (i :: path) = some e ∧
      ∀ page, page ≠ table → Outside root p page → Outside root (p.write n i e) page := by
  have apart : n ≠ table := by
    rintro rfl
    exact fresh.noTable path (le_of_lt short) here
  have links : Links childTable 3 p.memory (p.write n i e).memory root path i n table :=
    { short := short
      parent := here
      free := childTable_of_absent absent
      unused := fresh.noTable
      linked := by
        rw [write_memory, if_pos ⟨rfl, rfl⟩]
        exact leads
      others := fun m j _ other => by rw [write_memory, if_neg other]
      empty := fun j => by
        rw [write_memory, if_neg (fun target => apart target.1.symm), zero, childTable_zero] }
  have nodes := links.nodeAt_eq tree.unshared
  have old : nodeAt childTable p.memory root (i :: path) = none := by
    simp only [nodeAt]
    rw [show nodeAt childTable p.memory root path = some n from here]
    exact childTable_of_absent absent
  have entries : ∀ q, q.length ≤ 4 → q ≠ i :: path →
      pteAt root (p.write n i e) q = pteAt root p q ∨
        (pteAt root p q = none ∧ pteAt root (p.write n i e) q = some 0#64) := by
    intro q short' other
    cases q with
    | nil => exact .inl rfl
    | cons j q =>
      have short'' : q.length ≤ 3 := Nat.le_of_succ_le_succ short'
      simp only [entryAt, nodes q short'']
      by_cases below : q = i :: path
      · refine .inr ⟨?_, ?_⟩
        · rw [below, old]
          rfl
        · rw [if_pos below, Option.map_some, write_memory,
            if_neg (fun target => apart target.1.symm), zero]
      · refine .inl ?_
        rw [if_neg below]
        cases there : nodeAt childTable p.memory root q with
        | none => rfl
        | some m =>
          rw [Option.map_some, Option.map_some, write_memory, if_neg]
          rintro ⟨rfl, rfl⟩
          exact other (by
            rw [tree.unshared q path m short'' (le_of_lt short) there here])
  have atPath : pteAt root (p.write n i e) (i :: path) = some e := by
    rw [pteAt, entryAt, nodes path (le_of_lt short), if_neg,
      show nodeAt childTable p.memory root path = some n from here, Option.map_some, write_memory,
      if_pos ⟨rfl, rfl⟩]
    intro equal
    have := congrArg List.length equal
    simp at this
  refine ⟨⟨links.unshared tree.unshared, ?_, ?_, tree.allocator⟩, entries, atPath, ?_⟩
  · intro q t short' there
    rw [tableAt, nodes q short'] at there
    split at there
    · rw [← Option.some.inj there]
      exact ⟨fresh.frame, fresh.used⟩
    · exact tree.tables q t short' there
  · intro q e' length there
    by_cases target : q = i :: path
    · rw [target, atPath] at there
      rw [← Option.some.inj there]
      exact plain
    · rcases entries q (by omega) target with same | ⟨-, empty⟩
      · rw [same] at there
        exact tree.plain q e' length there
      · rw [empty] at there
        rw [← Option.some.inj there]
        decide
  · intro page other outside
    refine ⟨outside.frame, outside.freeable, outside.used, fun q short' there => ?_⟩
    rw [tableAt, nodes q short'] at there
    split at there
    · exact other (Option.some.inj there).symm
    · exact outside.noTable q short' there

/-- A page outside the tree given back: nothing of the tree changes. -/
theorem Tree.free (tree : Tree root p) (outside : Outside root p page)
    (done : free (physical2virtual page) p = some p') :
    SameTree root p p' ∧ ∀ other, other ≠ page → Outside root p other →
      Outside root p' other ∧ ∀ j, p'.memory other j = p.memory other j := by
  obtain ⟨-, split, limits, memory⟩ := free_spec done
  rw [virtual2physical_physical2virtual] at memory
  have same : ∀ path n i, path.length ≤ 3 → tableAt root p path = some n →
      p'.memory n i = p.memory n i := by
    intro path n i short here
    apply memory
    rintro rfl
    exact outside.noTable path short here
  have unfreed : ∀ other, other ≠ page → physical2virtual other ∉ p.allocator.freeList →
      physical2virtual other ∉ p'.allocator.freeList := by
    intro other ne used there
    rw [split] at there
    rcases List.mem_cons.mp there with equal | older
    · exact ne (add_right_cancel equal)
    · exact used older
  have used : ∀ path n, path.length ≤ 3 → tableAt root p path = some n →
      physical2virtual n ∉ p'.allocator.freeList := by
    intro path n short here
    refine unfreed n ?_ (tree.tables path n short here).2
    rintro rfl
    exact outside.noTable path short here
  have sameTree := tree.frame (tree.allocator.free outside.used done) same used
  refine ⟨sameTree, fun other ne before => ⟨?_, fun j => memory other j ne⟩⟩
  exact sameTree.outside before (before.freeable.congr limits) (unfreed other ne before.used)

/-! ## One level -/

theorem covers_or_bits (entry : BitVec 64) (flags : PageFlags) :
    Covers (entry ||| flags.bits) flags ∧
      ∀ f, Covers entry f → Covers (entry ||| flags.bits) f := by
  unfold Covers
  simp only [isWritable_or_bits, isUserPage_or_bits, Bool.or_eq_true]
  refine ⟨⟨.inr, .inr⟩, ?_⟩
  rintro f ⟨writable, user⟩
  exact ⟨fun asked => .inl (writable asked), fun asked => .inl (user asked)⟩

theorem allocTable_spec (tree : Tree root p) (done : allocTable p = some (table, p')) :
    SameTree root p p' ∧ Outside root p' table ∧ (∀ j, p'.memory table j = 0#64) ∧
      (∀ a i, a ≠ table → p'.memory a i = p.memory a i) ∧
      ∀ other, Outside root p other → Outside root p' other ∧ other ≠ table := by
  simp only [allocTable, bind_eq_some, Prod.exists, Option.some.injEq, Prod.mk.injEq] at done
  obtain ⟨page, q, allocated, rfl, rfl⟩ := done
  obtain ⟨same, outside, others⟩ := tree.alloc allocated
  have memory := (allocZeroed_spec allocated).2.1
  refine ⟨same, outside, fun j => ?_, fun a i other => ?_, others⟩
  · rw [memory]
    simp [PhysicalMemory.fill]
  · rw [memory]
    simp [PhysicalMemory.fill, other]

namespace VirtualMemoryMapper

/-- What one level of `map` does at a table of the tree: the entry leads to a table and has the
flags, every other table stays where it is, and pages outside the tree keep their content. -/
structure MapsLevel (root : Nat) (flags : PageFlags) (path : List Nat) (i table : Nat)
    (p p' : Physical) : Prop where
  grows : Grows root flags [i :: path] p p'
  leads : tableAt root p' (i :: path) = some table
  tables : ∀ q, q.length ≤ 3 → q ≠ i :: path → tableAt root p' q = tableAt root p q
  memory : ∀ page, Outside root p page → ∀ j, p'.memory page j = p.memory page j

/-- The entry leads to a table already and only gets the flags. -/
theorem mapsLevel_of_present (tree : Tree root p) (short : path.length < 3)
    (here : tableAt root p path = some n) (present : isPresent (p.memory n i) = true) :
    MapsLevel root flags path i (tableOf (p.memory n i ||| flags.bits)) p
      (p.write n i (p.memory n i ||| flags.bits)) := by
  obtain ⟨keeps, more⟩ := covers_or_bits (p.memory n i) flags
  obtain ⟨tree', entries, outside⟩ := tree.write (e := p.memory n i ||| flags.bits)
    (le_of_lt short) here (fun _ => childTable_or_bits _ _)
    (fun _ plain => by rw [or_and_of_and_eq_zero flags.bits_and_pteHugePage, plain])
  have atPath := entries (i :: path) (Nat.succ_le_succ (le_of_lt short))
  rw [if_pos rfl] at atPath
  refine ⟨⟨tree', ?_, ?_, ?_, outside⟩, ?_, ?_, ?_⟩
  · intro path' mem
    rw [List.mem_singleton.mp mem]
    exact ⟨_, atPath, by simpa using present, keeps⟩
  · intro path' e' short' there present'
    rw [entries path' (by omega)]
    split
    · rename_i same
      rw [same, pteAt, entryAt_of_nodeAt here] at there
      cases there
      exact ⟨_, rfl, by simpa using present', by simp, more⟩
    · exact ⟨e', there, present', rfl, fun _ covers => covers⟩
  · intro path' length
    rw [entries path' (by omega), if_neg]
    · exact .inl rfl
    · intro same
      rw [same] at length
      simp only [List.length_cons] at length
      omega
  · rw [nodeAt_eq_some_iff]
    exact ⟨_, atPath, by simpa using childTable_of_present present⟩
  · intro q short' other
    refine tableAt_congr (fun nonempty => ?_)
    rw [entries q (by omega), if_neg other]
  · intro page outside' j
    rw [write_memory, if_neg]
    rintro ⟨rfl, -⟩
    exact outside'.noTable path (le_of_lt short) here

/-- The entry that `map` hangs a new table on leads to that table, and is not a huge page. -/
theorem childTable_newTable {t : Nat} (frame : IsFrame t) (flags : PageFlags) :
    childTable ((BitVec.ofNat 64 t &&& addrMask ||| ptePresent) ||| flags.bits) = some t ∧
      ((BitVec.ofNat 64 t &&& addrMask ||| ptePresent) ||| flags.bits) &&& pteHugePage = 0#64 := by
  constructor
  · rw [childTable_or_bits, childTable_of_present (isPresent_or_ptePresent _),
      tableOf_or_ptePresent, frame.tableOf_ofNat]
  · rw [or_and_of_and_eq_zero flags.bits_and_pteHugePage, or_and_of_and_eq_zero (by decide),
      BitVec.and_assoc, show addrMask &&& pteHugePage = 0#64 by decide, BitVec.and_zero]

section
variable (tree : Tree root p) (short : path.length < 3) (here : tableAt root p path = some n)
include tree short here

/-- A new table is hung below the entry. -/
theorem mapsLevel_of_absent {t : Nat} {q : Physical} (absent : isPresent (p.memory n i) = false)
    (allocated : allocTable p = some (t, q)) :
    MapsLevel root flags path i
      (tableOf ((BitVec.ofNat 64 t &&& addrMask ||| ptePresent) ||| flags.bits)) p
      (q.write n i ((BitVec.ofNat 64 t &&& addrMask ||| ptePresent) ||| flags.bits)) := by
  obtain ⟨keeps, -⟩ := covers_or_bits (BitVec.ofNat 64 t &&& addrMask ||| ptePresent) flags
  obtain ⟨⟨tree', tables, sameEntries⟩, fresh, zero, sameMemory, others⟩ :=
    allocTable_spec tree allocated
  have here' : tableAt root q path = some n := by
    rw [tables path (le_of_lt short), here]
  have sameEntry : q.memory n i = p.memory n i := by
    have := sameEntries (i :: path) (Nat.succ_le_succ (le_of_lt short))
    rw [pteAt, pteAt, entryAt_of_nodeAt here', entryAt_of_nodeAt here] at this
    exact Option.some.inj this
  obtain ⟨leads, plain⟩ := childTable_newTable fresh.frame flags
  obtain ⟨tree'', entries, atPath, outside⟩ := tree'.link short here' (sameEntry ▸ absent) fresh
    zero leads plain
  refine ⟨⟨tree'', ?_, ?_, ?_, ?_⟩, ?_, ?_, ?_⟩
  · intro path' mem
    rw [List.mem_singleton.mp mem]
    exact ⟨_, atPath, by simp, keeps⟩
  · intro path' e' short' there present'
    have other : path' ≠ i :: path := by
      rintro rfl
      rw [pteAt, entryAt_of_nodeAt here] at there
      rw [← Option.some.inj there, absent] at present'
      simp at present'
    rw [← sameEntries path' (by omega)] at there
    rcases entries path' (by omega) other with same | ⟨missing, -⟩
    · exact ⟨e', same.trans there, present', rfl, fun _ covers => covers⟩
    · rw [missing] at there
      simp at there
  · intro path' length
    have other : path' ≠ i :: path := by
      rintro rfl
      simp only [List.length_cons] at length
      omega
    rw [← sameEntries path' (by omega)]
    exact entries path' (by omega) other
  · intro page outside'
    obtain ⟨still, other⟩ := others page outside'
    exact outside page other still
  · rw [nodeAt_eq_some_iff]
    refine ⟨_, atPath, ?_⟩
    rw [leads]
    simp [fresh.frame.tableOf_ofNat]
  · intro q' short' other
    refine tableAt_congr (fun nonempty => ?_)
    rw [← sameEntries q' (by omega)]
    rcases entries q' (by omega) other with same | ⟨missing, empty⟩
    · rw [same]
    · rw [missing, empty]
      exact childTable_zero
  · intro page outside' j
    rw [write_memory, if_neg]
    · exact sameMemory page j (others page outside').2
    · rintro ⟨rfl, -⟩
      exact outside'.noTable path (le_of_lt short) here

/-- One level of `map`, at a table of the tree. -/
theorem mapLevel_mapsLevel (done : mapLevel flags n i p = some (table, p')) :
    MapsLevel root flags path i table p p' := by
  simp only [mapLevel, ensureEntry, Option.bind_eq_bind, Option.bind_eq_some_iff,
    Prod.exists] at done
  obtain ⟨e, q, ensured, rfl, rfl⟩ := done
  split at ensured
  · rename_i present
    cases ensured
    exact mapsLevel_of_present tree short here present
  · rename_i absent
    simp only [Option.bind_eq_some_iff, Prod.exists] at ensured
    obtain ⟨t, q', allocated, rfl, rfl⟩ := ensured
    exact mapsLevel_of_absent tree short here (Bool.eq_false_iff.mpr absent) allocated

/-- One level of `unmap`, at a table of the tree: the entry loses the flags. -/
theorem unmapLevel_spec (done : unmapLevel flags n i p = some (table, p')) :
    Tree root p' ∧ tableAt root p' (i :: path) = some table ∧
      (∃ e, pteAt root p (i :: path) = some e ∧ isPresent e = true) ∧
      (∀ q, q.length ≤ 4 → pteAt root p' q =
        if q = i :: path then (pteAt root p q).map (· &&& ~~~flags.bits) else pteAt root p q) ∧
      ∀ page, Outside root p page →
        Outside root p' page ∧ ∀ j, p'.memory page j = p.memory page j := by
  obtain ⟨present, done⟩ := Option.ite_none_right_eq_some.mp done
  obtain ⟨rfl, rfl⟩ := done
  obtain ⟨tree', entries, outside⟩ := tree.write (e := p.memory n i &&& ~~~flags.bits)
    (le_of_lt short) here (fun _ => childTable_and_not_bits _ _)
    (fun _ plain => by rw [and_not_and_of_and_eq_zero flags.bits_and_pteHugePage, plain])
  have before : pteAt root p (i :: path) = some (p.memory n i) := entryAt_of_nodeAt here
  have after := entries (i :: path) (Nat.succ_le_succ (le_of_lt short))
  rw [if_pos rfl] at after
  refine ⟨tree', ?_, ⟨_, before, present⟩, ?_, ?_⟩
  · rw [nodeAt_eq_some_iff]
    exact ⟨_, after, childTable_of_present (by simpa using present)⟩
  · intro q short'
    rw [entries q short']
    split
    · rename_i same
      rw [same, before]
      rfl
    · rfl
  · intro page outside'
    refine ⟨outside page outside', fun j => ?_⟩
    rw [write_memory, if_neg]
    rintro ⟨rfl, -⟩
    exact outside'.noTable path (le_of_lt short) here

end

end VirtualMemoryMapper

end

end Emerald.MemoryManagement
