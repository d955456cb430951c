
import Emerald.MemoryManagement.Proofs.VirtualSpaceTiling

/-!
# Physical ranges of live allocations

`VirtualSpaceAllocator::allocate` refuses a request if `get_entry_containing` finds a mapped entry
that holds the first page of the request. A live allocation that starts further inside the request
is not found, and from then on a physical page is mapped twice.
-/

namespace Emerald.MemoryManagement.VirtualSpaceAllocator
variable {entries entries' : List VirtualSpaceEntry} {result : Except VirtualSpaceError Nat}
variable {entry : VirtualSpaceEntry} {phyStart : Nat}

/-- The physical range of an entry that is mapped. -/
def physicalRange (entry : VirtualSpaceEntry) : Option (Nat × Nat) :=
  entry.physicalStart.map fun start => (start, entry.size)

/-- The physical ranges that are recorded for the live allocations. -/
def physicalRanges (entries : List VirtualSpaceEntry) : List (Nat × Nat) :=
  entries.filterMap physicalRange

/-- The physical ranges share no page. -/
abbrev PhysicallyApart (r s : Nat × Nat) : Prop := Apart Prod.fst Prod.snd r s

/-- No two live allocations share a physical page. -/
def NoAliasing (entries : List VirtualSpaceEntry) : Prop :=
  (physicalRanges entries).Pairwise PhysicallyApart

/-- The first address is in the range, as `get_entry_containing` sees it: the end of the range is
computed in 64 bits. -/
def HoldsFirst (phyStart : Nat) (r : Nat × Nat) : Prop :=
  r.1 ≤ phyStart ∧ phyStart < wrapAdd r.1 r.2

/-- A request that shares a page with a live allocation shares its first page with one. -/
def SeenAtFirstPage (entries : List VirtualSpaceEntry) : Call → Prop
  | .allocate phyStart size =>
    (∀ r ∈ physicalRanges entries, PhysicallyApart r (phyStart, size)) ∨
      ∃ r ∈ physicalRanges entries, HoldsFirst phyStart r
  | .deallocate _ _ => True

instance (phyStart : Nat) (r : Nat × Nat) : Decidable (HoldsFirst phyStart r) :=
  inferInstanceAs (Decidable (_ ∧ _))

instance (entries : List VirtualSpaceEntry) : DecidablePred (SeenAtFirstPage entries)
  | .allocate phyStart size => inferInstanceAs (Decidable
      ((∀ r ∈ physicalRanges entries, PhysicallyApart r (phyStart, size)) ∨
        ∃ r ∈ physicalRanges entries, HoldsFirst phyStart r))
  | .deallocate _ _ => inferInstanceAs (Decidable True)

/-- The entries after a call, if it does not panic. -/
def afterCall (entries : List VirtualSpaceEntry) : Call → Option (List VirtualSpaceEntry)
  | .allocate phyStart size => (allocate phyStart size entries).map Prod.snd
  | .deallocate virtualStart size => (deallocate virtualStart size entries).map Prod.snd

/-! ## Requests that are refused -/

theorem physicalRanges_append (l r : List VirtualSpaceEntry) :
    physicalRanges (l ++ r) = physicalRanges l ++ physicalRanges r := List.filterMap_append

theorem physicalRanges_cons_free (free : entry.physicalStart = none)
    (l : List VirtualSpaceEntry) : physicalRanges (entry :: l) = physicalRanges l := by
  rw [physicalRanges, List.filterMap_cons, physicalRange, free]
  rfl

theorem physicalRanges_cons_mapped {start : Nat}
    (mapped : entry.physicalStart = some start) (l : List VirtualSpaceEntry) :
    physicalRanges (entry :: l) = (start, entry.size) :: physicalRanges l := by
  rw [physicalRanges, List.filterMap_cons, physicalRange, mapped]
  rfl

/-- `get_entry_containing` finds an entry if one holds the first page. -/
theorem entryContaining_isSome_iff (phyStart size : Nat) (entries : List VirtualSpaceEntry) :
    (entryContaining phyStart size entries).isSome = true ↔
      ∃ r ∈ physicalRanges entries, HoldsFirst phyStart r := by
  induction entries with
  | nil => simp [entryContaining, physicalRanges]
  | cons entry rest ih =>
    cases mapped : entry.physicalStart with
    | none =>
      rw [entryContaining, physicalRanges_cons_free mapped, ← ih, mapped]
    | some start =>
      rw [physicalRanges_cons_mapped mapped, List.exists_mem_cons_iff, ← ih, entryContaining,
        mapped]
      dsimp only
      by_cases inside : start ≤ phyStart ∧ phyStart < wrapAdd start entry.size
      · rw [if_pos inside]
        exact iff_of_true rfl (.inl inside)
      · rw [if_neg inside]
        exact (or_iff_right inside).symm

/-- What `allocate` does: it refuses the request, it finds no place for it, or it records it in
place of a free entry. -/
inductive Allocates (phyStart size : Nat) (entries : List VirtualSpaceEntry) :
    Except VirtualSpaceError Nat → List VirtualSpaceEntry → Prop
  | refused (found : ∃ r ∈ physicalRanges entries, HoldsFirst phyStart r) :
      Allocates phyStart size entries (.error .alreadyMapped) entries
  | outOfSpace {entries' : List VirtualSpaceEntry}
      (missed : ¬ ∃ r ∈ physicalRanges entries, HoldsFirst phyStart r)
      (same : physicalRanges entries' = physicalRanges entries) :
      Allocates phyStart size entries (.error .outOfSpace) entries'
  | recorded {entries' : List VirtualSpaceEntry} {virtualAddress : Nat}
      {before after : List (Nat × Nat)}
      (missed : ¬ ∃ r ∈ physicalRanges entries, HoldsFirst phyStart r)
      (old : physicalRanges entries = before ++ after)
      (new : physicalRanges entries' = before ++ (phyStart, size) :: after) :
      Allocates phyStart size entries (.ok virtualAddress) entries'

theorem splitFirstFit_recorded {size virtualAddress : Nat}
    (found : splitFirstFit phyStart size [] entries = some (virtualAddress, entries')) :
    ∃ before after, physicalRanges entries = before ++ after ∧
      physicalRanges entries' = before ++ (phyStart, size) :: after := by
  obtain ⟨pre, entry, post, old, free, -, -, rfl⟩ := splitFirstFit_some found
  refine ⟨physicalRanges pre, physicalRanges post, ?_, ?_⟩
  · rw [List.reverse_nil, List.nil_append] at old
    rw [old, physicalRanges_append, physicalRanges_cons_free free]
  · rw [physicalRanges_append, physicalRanges_cons_mapped rfl, physicalRanges_cons_free rfl]

theorem allocateBody_allocates {again : List VirtualSpaceEntry → Outcome Nat} {size : Nat}
    (retried : ∀ result entries', again [wholeRange] = some (result, entries') →
      Allocates phyStart size [wholeRange] result entries')
    (done : allocateBody again phyStart size entries = some (result, entries')) :
    Allocates phyStart size entries result entries' := by
  unfold allocateBody at done
  split at done
  · cases done
  · split at done
    · rename_i seen
      cases done
      exact .refused ((entryContaining_isSome_iff phyStart size entries).mp seen)
    · rename_i unseen
      rw [entryContaining_isSome_iff] at unseen
      split at done
      · rename_i fits
        cases done
        obtain ⟨before, after, old, new⟩ := splitFirstFit_recorded fits
        exact .recorded unseen old new
      · split at done
        · rename_i empty
          obtain rfl := List.isEmpty_iff.mp empty
          split at done
          · -- the retry is on one free entry, where as little is recorded as in none
            cases retried result entries' done with
            | refused found =>
              exact absurd found (by simp [physicalRanges, physicalRange, wholeRange])
            | outOfSpace missed same => exact .outOfSpace unseen same
            | recorded missed old new => exact .recorded unseen old new
          · cases done
        · cases done
          exact .outOfSpace unseen rfl

theorem allocate_allocates {size : Nat}
    (done : allocate phyStart size entries = some (result, entries')) :
    Allocates phyStart size entries result entries' := by
  refine allocateBody_allocates (fun result entries' again => ?_) done
  refine allocateBody_allocates (fun _ _ never => ?_) again
  cases never

/-! ## Entries that are freed -/

/-- A free entry is merged and put back: none of the mapped ones is touched. -/
theorem physicalRanges_mergeAndInsert {current : VirtualSpaceEntry}
    (free : current.physicalStart = none) (front post : List VirtualSpaceEntry) :
    physicalRanges (mergeAndInsert current ⟨front, post⟩) =
      physicalRanges front.reverse ++ physicalRanges post := by
  have putBack : ∀ (current : VirtualSpaceEntry) (post : List VirtualSpaceEntry),
      current.physicalStart = none →
      physicalRanges
          ((mergePrev current (Cursor.movePrev ⟨front, post⟩)).insertAfter current).list =
        physicalRanges front.reverse ++ physicalRanges post := by
    intro current post free
    cases front with
    | nil =>
      simp only [mergePrev, Cursor.movePrev, Cursor.current, List.head?_nil,
        Cursor.list_insertAfter_ghost, List.reverse_reverse, physicalRanges_cons_free free]
      rfl
    | cons prev front =>
      simp only [mergePrev, Cursor.movePrev, Cursor.current, List.head?_cons]
      split
      · rename_i freePrev
        rw [Cursor.setCurrent, Cursor.list_insertAfter_cons, physicalRanges_append,
          physicalRanges_cons_free (by exact freePrev), physicalRanges_cons_free free,
          List.reverse_cons, physicalRanges_append, physicalRanges_cons_free freePrev]
        simp [physicalRanges]
      · rw [Cursor.list_insertAfter_cons, List.reverse_cons, physicalRanges_append,
          physicalRanges_append, List.append_assoc, ← physicalRanges_append [prev] post]
        congr 1
        show physicalRanges ([prev] ++ current :: post) = _
        rw [physicalRanges_append, physicalRanges_cons_free free, physicalRanges_append]
  unfold mergeAndInsert mergeNext
  cases post with
  | nil => exact putBack current [] free
  | cons next rest =>
    simp only [Cursor.current, List.head?_cons]
    by_cases freeNext : next.physicalStart = none
    · rw [if_pos freeNext, physicalRanges_cons_free freeNext]
      exact putBack { current with size := current.size + next.size } rest free
    · rw [if_neg freeNext]
      exact putBack current (next :: rest) free

/-- `deallocate` records no new range. -/
theorem deallocateFrom_sublist {virtualStart size : Nat} {before l : List VirtualSpaceEntry}
    {result : Except VirtualSpaceError Unit}
    (done : deallocateFrom virtualStart size before l = some (result, entries')) :
    (physicalRanges entries').Sublist (physicalRanges (before.reverse ++ l)) := by
  induction l generalizing before with
  | nil =>
    cases done
    rw [List.append_nil]
  | cons entry rest ih =>
    unfold deallocateFrom at done
    split at done
    · split at done
      · cases done
        exact List.Sublist.refl _
      · split at done
        · cases done
        · cases done
          rw [physicalRanges_mergeAndInsert rfl, physicalRanges_append]
          refine List.Sublist.append_left ?_ _
          exact (List.sublist_cons_self entry rest).filterMap physicalRange
    · have := ih done
      rw [List.reverse_cons, List.append_assoc] at this
      exact this

/-! ## Runs -/

theorem PhysicallyApart.symm {r s : Nat × Nat} (apart : PhysicallyApart r s) :
    PhysicallyApart s r := Or.symm apart

/-- A range is recorded among others. -/
theorem pairwise_insert {before after : List (Nat × Nat)} {r : Nat × Nat}
    (old : (before ++ after).Pairwise PhysicallyApart) :
    (before ++ r :: after).Pairwise PhysicallyApart ↔
      ∀ s ∈ before ++ after, PhysicallyApart s r := by
  rw [List.pairwise_middle (fun {_ _} apart => PhysicallyApart.symm apart), List.pairwise_cons]
  constructor
  · intro pairs s mem
    exact (pairs.1 s mem).symm
  · intro apart
    exact ⟨fun s mem => (apart s mem).symm, old⟩

theorem noAliasing_afterCall {c : Call} (apart : NoAliasing entries)
    (seen : SeenAtFirstPage entries c) (done : afterCall entries c = some entries') :
    NoAliasing entries' := by
  cases c with
  | allocate phyStart size =>
    obtain ⟨⟨result, _⟩, run, rfl⟩ := Option.map_eq_some_iff.mp done
    cases allocate_allocates run with
    | refused found => exact apart
    | outOfSpace missed same =>
      unfold NoAliasing
      rw [same]
      exact apart
    | recorded missed old new =>
      unfold NoAliasing at apart ⊢
      rw [old] at apart
      rw [new, pairwise_insert apart, ← old]
      exact seen.resolve_right missed
  | deallocate virtualStart size =>
    obtain ⟨⟨result, _⟩, run, rfl⟩ := Option.map_eq_some_iff.mp done
    unfold deallocate at run
    split at run
    · cases run
    · exact apart.sublist (deallocateFrom_sublist run)

/-- The calls of a run: each request that shares a page with a live allocation shares its first page
with one. -/
abbrev ReachableSeen : List VirtualSpaceEntry → Prop :=
  Reachable (fun entries c entries' => afterCall entries c = some entries') SeenAtFirstPage (· = [])

/-- No two live allocations share a physical page, in every state that is reached by requests that
are seen at their first page. There a request that shares a page with a live allocation is answered
with `AlreadyMapped` if and only if it is seen as well. -/
theorem noAliasing_of_reachable (entries : List VirtualSpaceEntry)
    (reached : ReachableSeen entries) :
    NoAliasing entries ∧
      ∀ phyStart size result entries', allocate phyStart size entries = some (result, entries') →
        (((∃ r ∈ physicalRanges entries, ¬ PhysicallyApart r (phyStart, size)) →
            result = .error .alreadyMapped) ↔
          SeenAtFirstPage entries (.allocate phyStart size)) := by
  constructor
  · refine Reachable.invariant ?_ ?_ entries reached
    · rintro _ rfl
      exact List.Pairwise.nil
    · intro entries c entries' apart seen done
      exact noAliasing_afterCall apart seen done
  · intro phyStart size result entries' done
    have shares : (∃ r ∈ physicalRanges entries, ¬ PhysicallyApart r (phyStart, size)) ↔
        ¬ ∀ r ∈ physicalRanges entries, PhysicallyApart r (phyStart, size) := by
      push Not
      rfl
    have unseen (missed : ¬ ∃ r ∈ physicalRanges entries, HoldsFirst phyStart r)
        (other : result ≠ .error .alreadyMapped) :
        ((∃ r ∈ physicalRanges entries, ¬ PhysicallyApart r (phyStart, size)) →
            result = .error .alreadyMapped) ↔
          SeenAtFirstPage entries (.allocate phyStart size) := by
      show _ ↔ _ ∨ _
      rw [shares, or_iff_left missed]
      constructor
      · intro refuses
        by_contra sharing
        exact other (refuses sharing)
      · intro apart sharing
        exact absurd apart sharing
    cases allocate_allocates done with
    | refused found => exact iff_of_true (fun _ => rfl) (.inr found)
    | outOfSpace missed same | recorded missed old new => exact unseen missed (by simp)

/-- A request from inside a live allocation is refused, one behind it is recorded. -/
theorem noAliasing_request_behind :
    NoAliasing [⟨some 0x2000, kernelExtraMemoryBase, 0x2000⟩,
      ⟨some 0x4000, kernelExtraMemoryBase + 0x2000, 0x1000⟩,
      ⟨none, kernelExtraMemoryBase + 0x3000, kernelExtraMemorySize - 0x3000⟩] :=
  (noAliasing_of_reachable _ (Reachable.of_runCalls
    (fun entries c => decide (SeenAtFirstPage entries c)) (fun _ _ => of_decide_eq_true)
    [.allocate 0x2000 0x2000, .allocate 0x3000 0x2000, .allocate 0x4000 0x1000]
    (.start rfl) (by decide +kernel))).1

/-- A request that reaches up to a live allocation from below is granted: both have page 2. -/
theorem aliasing_request_from_below :
    allocate 0x1000 0x2000 [⟨some 0x2000, kernelExtraMemoryBase, 0x1000⟩,
        ⟨none, kernelExtraMemoryBase + 0x1000, kernelExtraMemorySize - 0x1000⟩] =
      some (.ok (kernelExtraMemoryBase + 0x1000), [⟨some 0x2000, kernelExtraMemoryBase, 0x1000⟩,
        ⟨some 0x1000, kernelExtraMemoryBase + 0x1000, 0x2000⟩,
        ⟨none, kernelExtraMemoryBase + 0x3000, kernelExtraMemorySize - 0x3000⟩]) ∧
    ¬ ∀ entries, Reachable (fun entries c entries' => afterCall entries c = some entries')
      (fun _ _ => True) (· = []) entries → NoAliasing entries := by
  refine ⟨by decide +kernel, ?_⟩
  intro apart
  obtain ⟨entries, reached, both⟩ : ∃ entries,
      Reachable (fun entries c entries' => afterCall entries c = some entries')
        (fun _ _ => True) (· = []) entries ∧ ¬ (physicalRanges entries).Pairwise PhysicallyApart :=
    Reachable.exists_of_run rfl [.allocate 0x2000 0x1000, .allocate 0x1000 0x2000]
      (by decide +kernel)
  exact both (apart entries reached)

end Emerald.MemoryManagement.VirtualSpaceAllocator
