
import Emerald.Misc.Reachable
import Emerald.Misc.Tiling
import Emerald.MemoryManagement.VirtualSpace

/-!
# The entries of the virtual space allocator

While no range is freed right behind a free entry, the entries tile the kernel's extra memory
and the live ranges are exactly the mapped entries. `mergeAndInsert` puts the freed entry back
also where the entry before it has absorbed it, and from there on two entries overlap.
-/

namespace Emerald.MemoryManagement.VirtualSpaceAllocator
variable {front : List VirtualSpaceEntry} {entry : VirtualSpaceEntry} {s : State}
variable {entries before : List VirtualSpaceEntry} {size virtualStart phyStart : Nat}

/-- The entries lie end to end over the kernel's extra memory. -/
abbrev TilesRegion (entries : List VirtualSpaceEntry) : Prop :=
  Tiles VirtualSpaceEntry.virtualStart VirtualSpaceEntry.size kernelExtraMemoryBase entries
    kernelLastPossibleAddr

def range (entry : VirtualSpaceEntry) : Nat × Nat := (entry.virtualStart, entry.size)

/-- The ranges of the mapped entries, in list order. -/
def mappedRanges (entries : List VirtualSpaceEntry) : List (Nat × Nat) :=
  (entries.filter (fun entry => entry.physicalStart.isSome)).map range

/-- The entry in front of the one that holds the address. -/
def entryBefore (reqVirtualStart : Nat) (prev : Option VirtualSpaceEntry) :
    List VirtualSpaceEntry → Option VirtualSpaceEntry
  | [] => none
  | entry :: rest =>
    if holds entry reqVirtualStart then prev
    else entryBefore reqVirtualStart (some entry) rest

/-- The calls that do not free a range right behind a free entry. -/
def FreesBehindMapped (s : State) : Call → Prop
  | .allocate _ _ => True
  | .deallocate virtualStart _ =>
    ∀ prev ∈ entryBefore virtualStart none s.entries, prev.physicalStart ≠ none

instance (s : State) (c : Call) : Decidable (FreesBehindMapped s c) :=
  match c with
  | .allocate _ _ => inferInstanceAs (Decidable True)
  | .deallocate virtualStart _ => inferInstanceAs (Decidable (∀ prev ∈ entryBefore virtualStart
      none s.entries, prev.physicalStart ≠ none))

structure Inv (s : State) : Prop where
  tiles : s.entries ≠ [] → TilesRegion s.entries
  sized : ∀ entry ∈ s.entries, entry.physicalStart ≠ none → 0 < entry.size
  live : (mappedRanges s.entries).Perm s.live

theorem validRange_pos {start : Nat} (valid : validRange start size = true) : 0 < size := by
  simp only [validRange, Bool.and_eq_true, decide_eq_true_eq] at valid
  exact valid.1.1

/-! ## What the loops find -/

theorem splitFirstFit_some {l : List VirtualSpaceEntry} {virtualAddress : Nat}
    (found : splitFirstFit phyStart size before l = some (virtualAddress, entries)) :
    ∃ pre entry post, before.reverse ++ l = pre ++ entry :: post ∧
      entry.physicalStart = none ∧ size ≤ entry.size ∧ virtualAddress = entry.virtualStart ∧
      entries = pre ++ { entry with size := size, physicalStart := some phyStart } ::
        { physicalStart := none, virtualStart := entry.virtualStart + size,
          size := entry.size - size } :: post := by
  induction l generalizing before with
  | nil => simp [splitFirstFit] at found
  | cons entry rest ih =>
    unfold splitFirstFit at found
    split at found
    · rename_i fits
      simp only [Option.some.injEq, Prod.mk.injEq] at found
      exact ⟨before.reverse, entry, rest, rfl, fits.1, fits.2, found.1.symm, found.2.symm⟩
    · simpa using ih found

theorem deallocateFrom_ok {reqVirtualStart reqSize : Nat}
    {l : List VirtualSpaceEntry} (prev : Option VirtualSpaceEntry) (previous : prev = before.head?)
    (done : deallocateFrom reqVirtualStart reqSize before l = some (.ok (), entries)) :
    ∃ front entry post, before.reverse ++ l = front.reverse ++ entry :: post ∧
      entryBefore reqVirtualStart prev l = front.head? ∧
      entry.physicalStart ≠ none ∧ reqVirtualStart = entry.virtualStart ∧ reqSize = entry.size ∧
      entries = mergeAndInsert { entry with physicalStart := none } ⟨front, post⟩ := by
  induction l generalizing before prev with
  | nil => simp [deallocateFrom] at done
  | cons entry rest ih =>
    unfold deallocateFrom at done
    unfold entryBefore
    by_cases inside : holds entry reqVirtualStart
    · simp only [inside, if_true] at done ⊢
      split at done
      · simp at done
      · rename_i exact_range
        simp only [Option.ite_none_left_eq_some, Option.some.injEq, Prod.mk.injEq, true_and, not_or,
          not_not] at done exact_range
        exact ⟨before, entry, rest, rfl, previous, done.1, exact_range.1, exact_range.2,
          done.2.symm⟩
    · simp only [inside] at done ⊢
      obtain ⟨front, found, post, split_at, rest⟩ := ih (some entry) rfl done
      exact ⟨front, found, post, by simpa using split_at, rest⟩

theorem deallocate_ok (done : deallocate virtualStart size s.entries = some (.ok (), entries)) :
    0 < size ∧ ∃ front entry post, s.entries = front.reverse ++ entry :: post ∧
      entryBefore virtualStart none s.entries = front.head? ∧
      entry.physicalStart ≠ none ∧ virtualStart = entry.virtualStart ∧ size = entry.size ∧
      entries = mergeAndInsert { entry with physicalStart := none } ⟨front, post⟩ := by
  rw [deallocate, Option.ite_none_left_eq_some, not_not] at done
  exact ⟨validRange_pos done.1, deallocateFrom_ok none rfl done.2⟩

section
variable (current : VirtualSpaceEntry) (post : List VirtualSpaceEntry)
  (mapped : ∀ prev, front.head? = some prev → prev.physicalStart ≠ none)
include current post mapped

/-- Behind a mapped entry, or at the front, the freed entry is put back once: the cursor stands
on the entry before it, or on the ghost in front of the first. -/
theorem insert_behind_mapped :
    ((mergePrev current (Cursor.movePrev ⟨front, post⟩)).insertAfter current).list =
      front.reverse ++ current :: post := by
  cases front with
  | nil => simp [mergePrev, Cursor.movePrev, Cursor.current, Cursor.list_insertAfter_ghost]
  | cons prev front =>
    have := mapped prev rfl
    simp [mergePrev, Cursor.movePrev, Cursor.current, this, Cursor.list_insertAfter_cons]

theorem mergeAndInsert_behind_mapped :
    mergeAndInsert current ⟨front, post⟩ = front.reverse ++ current :: post ∨
    ∃ next rest, post = next :: rest ∧ next.physicalStart = none ∧
      mergeAndInsert current ⟨front, post⟩ =
        front.reverse ++ { current with size := current.size + next.size } :: rest := by
  cases post with
  | nil => exact .inl (insert_behind_mapped current [] mapped)
  | cons next rest =>
    by_cases free : next.physicalStart = none
    · refine .inr ⟨next, rest, rfl, free, ?_⟩
      simpa [mergeAndInsert, mergeNext, Cursor.current, free, Cursor.removeCurrent] using
        insert_behind_mapped { current with size := current.size + next.size } rest mapped
    · refine .inl ?_
      simpa [mergeAndInsert, mergeNext, Cursor.current, free] using
        insert_behind_mapped current (next :: rest) mapped

end

/-! ## The calls keep the invariant -/

theorem tiles_wholeRange : TilesRegion [wholeRange] := by
  refine ⟨rfl, ?_⟩
  show kernelExtraMemoryBase + kernelExtraMemorySize = kernelLastPossibleAddr
  decide

theorem mappedRanges_append (l r : List VirtualSpaceEntry) :
    mappedRanges (l ++ r) = mappedRanges l ++ mappedRanges r := by
  simp [mappedRanges]

theorem mappedRanges_free (free : entry.physicalStart = none) (rest : List VirtualSpaceEntry) :
    mappedRanges (entry :: rest) = mappedRanges rest := by
  simp [mappedRanges, free]

theorem mappedRanges_mapped (mapped : entry.physicalStart ≠ none) (rest : List VirtualSpaceEntry) :
    mappedRanges (entry :: rest) = range entry :: mappedRanges rest := by
  simp [mappedRanges, Option.isSome_iff_ne_none.mpr mapped]

/-- Some of the entries replaced by others that lie over the same range. -/
theorem Inv.replace (inv : Inv s) (pre old new post : List VirtualSpaceEntry)
    {live : List (Nat × Nat)} (entries : s.entries = pre ++ (old ++ post)) (some : old ≠ [])
    (same : ∀ lo hi, Tiles VirtualSpaceEntry.virtualStart VirtualSpaceEntry.size lo old hi →
      Tiles VirtualSpaceEntry.virtualStart VirtualSpaceEntry.size lo new hi)
    (sized : ∀ e ∈ new, e.physicalStart ≠ none → 0 < e.size)
    (perm : (mappedRanges pre ++ (mappedRanges new ++ mappedRanges post)).Perm live) :
    Inv { entries := pre ++ (new ++ post), live } := by
  have tiles := inv.tiles (by simp [entries, some])
  rw [entries] at tiles
  obtain ⟨lo, left, rest⟩ := (tiles_append pre _).mp tiles
  obtain ⟨hi, middle, right⟩ := (tiles_append old _).mp rest
  refine ⟨fun _ => ?_, ?_, ?_⟩
  · exact (tiles_append pre _).mpr
      ⟨lo, left, (tiles_append new _).mpr ⟨hi, same lo hi middle, right⟩⟩
  · intro e mem mapped
    simp only [List.mem_append] at mem
    rcases mem with before | here | after
    · exact inv.sized e (by simp [entries, before]) mapped
    · exact sized e here mapped
    · exact inv.sized e (by simp [entries, after]) mapped
  · rwa [mappedRanges_append, mappedRanges_append]

/-- Splitting a free entry keeps the tiling and adds its front part to the mapped ranges. -/
theorem inv_split (inv : Inv s) {pre post : List VirtualSpaceEntry}
    (at_entry : s.entries = pre ++ entry :: post) (free : entry.physicalStart = none)
    (fits : size ≤ entry.size) (pos : 0 < size) :
    Inv { entries := pre ++ { entry with size := size, physicalStart := some phyStart } ::
            { physicalStart := none, virtualStart := entry.virtualStart + size,
              size := entry.size - size } :: post,
          live := (entry.virtualStart, size) :: s.live } := by
  refine inv.replace pre [entry] [_, _] post at_entry (by simp) ?_ (by simp [pos]) ?_
  · rintro lo hi ⟨rfl, rfl⟩
    refine ⟨rfl, rfl, ?_⟩
    show entry.virtualStart + size + (entry.size - size) = entry.virtualStart + entry.size
    omega
  · have live := inv.live
    rw [at_entry, mappedRanges_append, mappedRanges_free free] at live
    exact List.perm_middle.trans (live.cons _)

theorem inv_allocate (inv : Inv s) {result : Except VirtualSpaceError Nat}
    (done : allocate phyStart size s.entries = some (result, entries)) :
    Inv { entries, live := liveAfter size s.live result } := by
  -- the retry after the first push starts from a state that satisfies the invariant as well
  have body : ∀ again (s : State), Inv s →
      (∀ result entries, again [wholeRange] = some (result, entries) → s.entries = [] →
        Inv { entries, live := liveAfter size s.live result }) →
      ∀ result entries, allocateBody again phyStart size s.entries = some (result, entries) →
        Inv { entries, live := liveAfter size s.live result } := by
    intro again s inv retry result entries done
    obtain ⟨valid, done⟩ := Option.ite_none_left_eq_some.mp done
    have pos := validRange_pos (by simpa using valid)
    split at done
    · cases done
      exact inv
    · split at done
      · rename_i virtualAddress split_entries found
        cases done
        obtain ⟨pre, entry, post, at_entry, free, fits, rfl, rfl⟩ := splitFirstFit_some found
        exact inv_split inv at_entry free fits pos
      · split at done
        · rename_i none_left
          split at done
          · exact retry _ _ done (by simpa using none_left)
          · simp at done
        · cases done
          exact inv
  refine body _ s inv ?_ result entries done
  intro result entries done none_left
  have pushed : Inv { entries := [wholeRange], live := s.live } := by
    refine ⟨fun _ => tiles_wholeRange, ?_, ?_⟩
    · intro entry mem mapped
      rw [List.mem_singleton.mp mem] at mapped
      exact absurd rfl mapped
    · have live := inv.live
      rw [none_left] at live
      rwa [mappedRanges_free rfl]
  exact body _ _ pushed (by simp) result entries done

theorem inv_deallocate (inv : Inv s) (behind : FreesBehindMapped s (.deallocate virtualStart size))
    (done : deallocate virtualStart size s.entries = some (.ok (), entries)) :
    Inv { entries, live := s.live.erase (virtualStart, size) } := by
  obtain ⟨-, front, entry, post, at_entry, before, mapped, rfl, rfl, rfl⟩ := deallocate_ok done
  have live := inv.live
  rw [at_entry, mappedRanges_append, mappedRanges_mapped mapped] at live
  have left_live : (mappedRanges front.reverse ++ mappedRanges post).Perm
      (s.live.erase (entry.virtualStart, entry.size)) := by
    have := (List.perm_middle.symm.trans live).erase (range entry)
    simpa [range] using this
  rcases mergeAndInsert_behind_mapped { entry with physicalStart := none } post
      (fun prev at_front => behind prev (before.trans at_front)) with
    put | ⟨next, rest, rfl, free, put⟩
  · rw [put]
    exact inv.replace front.reverse [entry] [_] post at_entry (by simp) (fun _ _ tiles => tiles)
      (by simp) left_live
  · rw [put]
    rw [mappedRanges_free free] at left_live
    refine inv.replace front.reverse [entry, next] [_] rest at_entry (by simp) ?_ (by simp)
      left_live
    rintro lo hi ⟨first, -, last⟩
    refine ⟨first, ?_⟩
    show lo + (entry.size + next.size) = hi
    rwa [← add_assoc]

theorem inv_step {t : State} {c : Call} (inv : Inv s) (behind : FreesBehindMapped s c)
    (taken : step s c = some t) : Inv t := by
  cases c with
  | allocate phyStart size =>
    simp only [step] at taken
    split at taken
    · rename_i result entries done
      cases taken
      exact inv_allocate inv done
    · simp at taken
  | deallocate virtualStart size =>
    simp only [step, Option.ite_none_right_eq_some] at taken
    obtain ⟨-, taken⟩ := taken
    split at taken
    · rename_i entries done
      cases taken
      exact inv_deallocate inv behind done
    · simp at taken

theorem inv_empty : Inv empty := by
  refine ⟨fun nonempty => absurd rfl nonempty, ?_, List.Perm.refl _⟩
  simp [empty]

/-! ## Freeing right behind a free entry -/

/-- The entry before absorbs the freed one, which is then inserted all the same, so that its
bytes are counted twice. -/
theorem sum_mergeAndInsert_behind_free {current prev : VirtualSpaceEntry}
    {post : List VirtualSpaceEntry} (free : prev.physicalStart = none) :
    ((mergeAndInsert current ⟨prev :: front, post⟩).map VirtualSpaceEntry.size).sum =
      (((prev :: front).reverse ++ current :: post).map VirtualSpaceEntry.size).sum +
        (mergeNext current ⟨prev :: front, post⟩).1.size := by
  have put : ∀ (entry : VirtualSpaceEntry) (rest : List VirtualSpaceEntry),
      ((((mergePrev entry (Cursor.movePrev ⟨prev :: front, rest⟩)).insertAfter entry).list).map
        VirtualSpaceEntry.size).sum =
      (((prev :: front).reverse ++ entry :: rest).map VirtualSpaceEntry.size).sum +
        entry.size := by
    intro entry rest
    simp only [mergePrev, Cursor.movePrev, Cursor.current, List.head?_cons, free, if_true,
      Cursor.setCurrent, Cursor.list_insertAfter_cons, List.map_append, List.map_cons,
      List.sum_append, List.sum_cons, List.reverse_cons, List.map_nil, List.sum_nil]
    omega
  cases post with
  | nil => simpa [mergeAndInsert, mergeNext, Cursor.current] using put current []
  | cons next rest =>
    by_cases unmapped : next.physicalStart = none
    · have := put { current with size := current.size + next.size } rest
      simp only [mergeAndInsert, mergeNext, Cursor.current, List.head?_cons, unmapped, if_true,
        Cursor.removeCurrent, List.tail_cons, this, List.map_append, List.map_cons,
        List.sum_append, List.sum_cons]
      omega
    · simpa [mergeAndInsert, mergeNext, Cursor.current, unmapped] using put current (next :: rest)

theorem le_size_mergeNext (current : VirtualSpaceEntry) (cursor : Cursor VirtualSpaceEntry) :
    current.size ≤ (mergeNext current cursor).1.size := by
  unfold mergeNext
  split
  · split
    · exact Nat.le_add_right _ _
    · exact le_rfl
  · exact le_rfl

theorem deallocate_behind_free (inv : Inv s)
    (behind : ¬ FreesBehindMapped s (.deallocate virtualStart size))
    (done : deallocate virtualStart size s.entries = some (.ok (), entries)) :
    kernelExtraMemorySize < (entries.map VirtualSpaceEntry.size).sum := by
  obtain ⟨pos, front, entry, post, at_entry, before, mapped, rfl, rfl, rfl⟩ := deallocate_ok done
  simp only [FreesBehindMapped, before, not_forall, not_not] at behind
  obtain ⟨prev, at_front, free⟩ := behind
  obtain ⟨front, rfl⟩ := List.head?_eq_some_iff.mp at_front
  have total := (inv.tiles (by simp [at_entry])).sum
  rw [at_entry] at total
  have grown := le_size_mergeNext { entry with physicalStart := none } ⟨prev :: front, post⟩
  have region : kernelExtraMemoryBase + kernelExtraMemorySize = kernelLastPossibleAddr := by decide
  rw [sum_mergeAndInsert_behind_free free]
  simp only [List.map_append, List.map_cons] at total grown ⊢
  omega

/-! ## Runs -/

/-- What the allocator promises of its entries and of the ranges it has handed out. -/
structure CoversRegion (s : State) : Prop where
  first : ∀ entry, s.entries.head? = some entry → entry.virtualStart = kernelExtraMemoryBase
  meet : ∀ pre x y post, s.entries = pre ++ x :: y :: post →
    x.virtualStart + x.size = y.virtualStart
  total : s.entries ≠ [] → (s.entries.map VirtualSpaceEntry.size).sum = kernelExtraMemorySize
  entriesApart : s.entries.Pairwise (Apart VirtualSpaceEntry.virtualStart VirtualSpaceEntry.size)
  liveApart : s.live.Pairwise (Apart Prod.fst Prod.snd)

theorem Inv.coversRegion (inv : Inv s) : CoversRegion s := by
  have region : kernelExtraMemoryBase + kernelExtraMemorySize = kernelLastPossibleAddr := by decide
  have apart : s.entries.Pairwise
      (Apart VirtualSpaceEntry.virtualStart VirtualSpaceEntry.size) := by
    cases entries : s.entries with
    | nil => exact List.Pairwise.nil
    | cons entry rest =>
      rw [← entries]
      exact (inv.tiles (by simp [entries])).apart
  refine ⟨?_, ?_, ?_, apart, ?_⟩
  · intro entry at_head
    obtain ⟨rest, entries⟩ := List.head?_eq_some_iff.mp at_head
    have tiles := inv.tiles (by simp [entries])
    rw [entries] at tiles
    exact tiles.1
  · intro pre x y post entries
    have tiles := inv.tiles (by simp [entries])
    rw [entries] at tiles
    exact tiles.meet
  · intro nonempty
    have := (inv.tiles nonempty).sum
    omega
  · refine (inv.live.pairwise_iff (fun {x y} apart => Or.symm apart)).mp ?_
    exact List.Pairwise.map range (fun _ _ apart => apart) (apart.filter _)

/-- The calls of a run: each allocates, or frees a live range that has a mapped entry, or
nothing, in front of it. -/
abbrev ReachableBehindMapped : State → Prop :=
  Reachable (fun s c t => step s c = some t) FreesBehindMapped (· = empty)

theorem inv_of_reachable : ∀ s, ReachableBehindMapped s → Inv s := by
  apply Reachable.invariant
  · rintro s rfl
    exact inv_empty
  · intro s c t inv behind taken
    exact inv_step inv behind taken

/-- In every state that is reached without freeing a range right behind a free entry the
entries tile the region and no two live ranges overlap. Such a free is also the only call that
breaks this. -/
theorem coversRegion_of_reachable (s : State) (reached : ReachableBehindMapped s) :
    CoversRegion s ∧ ∀ c t, step s c = some t → (CoversRegion t ↔ FreesBehindMapped s c) := by
  have inv := inv_of_reachable s reached
  refine ⟨inv.coversRegion, ?_⟩
  intro c t taken
  refine ⟨?_, fun behind => (inv_step inv behind taken).coversRegion⟩
  intro covers
  by_contra behind
  cases c with
  | allocate phyStart size => exact behind trivial
  | deallocate virtualStart size =>
    simp only [step, Option.ite_none_right_eq_some] at taken
    obtain ⟨-, taken⟩ := taken
    split at taken
    · rename_i entries done
      cases taken
      have grown := deallocate_behind_free inv behind done
      by_cases none_left : entries = []
      · simp [none_left] at grown
      · exact absurd (covers.total none_left) (ne_of_gt grown)
    · simp at taken

/-- Two allocations and a free of the second one, behind the first. -/
theorem coversRegion_free_second :
    CoversRegion
      { entries := [⟨some 0, kernelExtraMemoryBase, page4K⟩,
          ⟨none, kernelExtraMemoryBase + page4K, kernelExtraMemorySize - page4K⟩],
        live := [(kernelExtraMemoryBase, page4K)] } :=
  (coversRegion_of_reachable _ (Reachable.of_runCalls
    (fun s c => decide (FreesBehindMapped s c)) (fun _ _ => of_decide_eq_true)
    [.allocate 0 page4K, .allocate page4K page4K,
      .deallocate (kernelExtraMemoryBase + page4K) page4K]
    (.start rfl) (by decide +kernel))).1

/-- Freeing the first of two allocations and then the second, behind it, leaves entries that
overlap; the next two allocations then share their pages. -/
theorem not_coversRegion_free_in_order :
    ¬ ∀ s, Reachable (fun s c t => step s c = some t) (fun _ _ => True) (· = empty) s →
      CoversRegion s := by
  intro covers
  obtain ⟨s, reached, overlap⟩ : ∃ s, Reachable (fun s c t => step s c = some t)
      (fun _ _ => True) (· = empty) s ∧ ¬ s.live.Pairwise (Apart Prod.fst Prod.snd) :=
    Reachable.exists_of_run rfl
      [.allocate 0 page4K, .allocate page4K page4K,
        .deallocate kernelExtraMemoryBase page4K,
        .deallocate (kernelExtraMemoryBase + page4K) page4K,
        .allocate 0 kernelExtraMemorySize, .allocate 0x80000000 page4K] (by decide +kernel)
  exact overlap (covers s reached).liveApart

end Emerald.MemoryManagement.VirtualSpaceAllocator
