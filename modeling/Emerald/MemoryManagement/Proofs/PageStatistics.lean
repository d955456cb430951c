
import Emerald.MemoryManagement.Proofs.PageConservation

/-!
# The counters of the physical page allocator

`free_count` counts the calls of `free`, those of `init_range` included, and `used_count` the calls
of `alloc`. Neither of them ever decreases, so after the first `alloc` they are no longer the
numbers of free and used pages.
-/

namespace Emerald.MemoryManagement

namespace LinkedPages
variable {a b : LinkedPages} {page : Nat}

theorem free_counts (done : a.free page = some b) :
    b.freeCount = a.freeCount + 1 ∧ b.usedCount = a.usedCount := by
  obtain ⟨-, rfl⟩ := free_eq_some_iff.mp done
  exact ⟨rfl, rfl⟩

theorem alloc_counts (done : a.alloc = some (page, b)) :
    b.freeCount = a.freeCount ∧ b.usedCount = a.usedCount + 1 := by
  obtain ⟨first, -, done⟩ := bind_eq_some.mp done
  cases done
  exact ⟨rfl, rfl⟩

theorem freePages_counts {count : Nat} (done : freePages page count a = some b) :
    b.freeCount = a.freeCount + count ∧ b.usedCount = a.usedCount := by
  induction count generalizing page a with
  | zero =>
    cases done
    exact ⟨rfl, rfl⟩
  | succ count ih =>
    obtain ⟨c, freed, done⟩ := bind_eq_some.mp done
    obtain ⟨free, used⟩ := free_counts freed
    obtain ⟨free', used'⟩ := ih done
    exact ⟨by omega, used'.trans used⟩

theorem length_consecutivePages (page count : Nat) :
    (consecutivePages page count).length = count := by
  induction count generalizing page with
  | zero => rfl
  | succ count ih => rw [consecutivePages, List.length_cons, ih]

/-- After the initialisation the counters are those of the pages of the ranges. -/
theorem Initialised.counts {ranges : List PageRange} (initialised : Initialised ranges a) :
    a.freeCount = (ranges.flatMap PageRange.pages).length ∧ a.usedCount = 0 := by
  induction initialised with
  | start blank =>
    obtain ⟨memory, rfl⟩ := blank
    exact ⟨rfl, rfl⟩
  | limits start end_ highMemStart _ ih => exact ih
  | range r _ done ih =>
    obtain ⟨-, done⟩ := Option.ite_none_right_eq_some.mp done
    obtain ⟨free, used⟩ := freePages_counts done
    refine ⟨?_, used.trans ih.2⟩
    rw [free, ih.1, List.flatMap_cons, List.length_append, PageRange.pages,
      length_consecutivePages, add_comm]

end LinkedPages

namespace PageUse

/-- The counters tell the numbers of pages that are free and handed out. -/
def StatsRight (u : PageUse) (l : List Nat) : Prop :=
  u.allocator.stats = (l.length, u.outstanding.length)

/-- What the counters are in every state: `free_count` is too large by the calls of `alloc`, and
`used_count` by the calls of `free`. -/
structure Counted (pages : List Nat) (u : PageUse) (l : List Nat) : Prop where
  conserves : Conserves pages u l
  free : u.allocator.freeCount = l.length + u.allocator.usedCount
  used : u.outstanding.length ≤ u.allocator.usedCount

variable {pages l : List Nat} {u t : PageUse} {call : PageCall} {calls : List PageCall}

theorem Counted.statsRight_iff (counted : Counted pages u l) :
    u.StatsRight l ↔ u.allocator.usedCount = 0 := by
  have free := counted.free
  have used := counted.used
  unfold StatsRight LinkedPages.stats
  rw [Prod.mk.injEq]
  omega

/-- The free lists before and after a call, by what the call does to the counters. -/
theorem Counted.step (distinct : pages.Nodup) (pointers : ∀ page ∈ pages, page < 2 ^ 64)
    (counted : Counted pages u l) (owned : u.Owned call) (done : u.step call = some t) :
    ∃ l', Counted pages t l' := by
  have conserves := counted.conserves.step distinct pointers owned done
  suffices counts : t.allocator.freeCount = (freeAfter l call).length + t.allocator.usedCount ∧
      t.outstanding.length ≤ t.allocator.usedCount from ⟨_, conserves, counts.1, counts.2⟩
  have free := counted.free
  have used := counted.used
  have before := counted.conserves.all.length_eq
  have after := conserves.all.length_eq
  rw [List.length_append] at before after
  cases call with
  | alloc =>
    obtain ⟨⟨page, b⟩, taken, rfl⟩ := Option.map_eq_some_iff.mp done
    obtain ⟨sameFree, moreUsed⟩ := LinkedPages.alloc_counts taken
    simp only [List.length_cons] at after ⊢
    omega
  | free page =>
    obtain ⟨b, freed, rfl⟩ := Option.map_eq_some_iff.mp done
    obtain ⟨moreFree, sameUsed⟩ := LinkedPages.free_counts freed
    have out : page ∈ u.outstanding := owned
    have fewer := List.length_erase_of_mem out
    have some := List.length_pos_of_mem out
    simp only at after ⊢
    omega
  | write page index word =>
    cases done
    simp only at after ⊢
    omega

/-- Only `alloc` counts a page as used. -/
theorem usedCount_eq_zero_iff (done : u.step call = some t) :
    t.allocator.usedCount = 0 ↔ u.allocator.usedCount = 0 ∧ call ≠ .alloc := by
  cases call with
  | alloc =>
    obtain ⟨⟨page, b⟩, taken, rfl⟩ := Option.map_eq_some_iff.mp done
    obtain ⟨-, more⟩ := LinkedPages.alloc_counts taken
    simp only [more, ne_eq, not_true_eq_false, and_false, iff_false]
    exact Nat.succ_ne_zero _
  | free page =>
    obtain ⟨b, freed, rfl⟩ := Option.map_eq_some_iff.mp done
    obtain ⟨-, same⟩ := LinkedPages.free_counts freed
    simp only [same, ne_eq, reduceCtorEq, not_false_eq_true, and_true]
  | write page index word =>
    cases done
    simp only [ne_eq, reduceCtorEq, not_false_eq_true, and_true]

/-- The run of owned calls. -/
def run (u : PageUse) (calls : List PageCall) : Option PageUse :=
  runCalls step (fun u call => decide (u.Owned call)) u calls

theorem run_cons (ran : u.run (call :: calls) = some t) :
    ∃ next, u.Owned call ∧ u.step call = some next ∧ next.run calls = some t := by
  unfold run runCalls at ran
  split at ran
  · rename_i owned
    split at ran
    · rename_i next taken
      exact ⟨next, of_decide_eq_true owned, taken, ran⟩
    · cases ran
  · cases ran

theorem Counted.run (distinct : pages.Nodup)
    (pointers : ∀ page ∈ pages, page < 2 ^ 64) (counted : Counted pages u l)
    (ran : u.run calls = some t) :
    ∃ l', Counted pages t l' ∧
      (t.allocator.usedCount = 0 ↔ u.allocator.usedCount = 0 ∧ PageCall.alloc ∉ calls) := by
  induction calls generalizing u l with
  | nil =>
    cases ran
    exact ⟨l, counted, by simp⟩
  | cons call calls ih =>
    obtain ⟨next, owned, taken, ran⟩ := run_cons ran
    obtain ⟨l', counted'⟩ := counted.step distinct pointers owned taken
    obtain ⟨l'', counted'', used⟩ := ih counted' ran
    refine ⟨l'', counted'', ?_⟩
    rw [used, usedCount_eq_zero_iff taken, List.mem_cons, not_or, and_assoc, ne_comm]

/-- After any calls of `alloc` and `free`, and writes of the owners to their pages, `stats` returns
the numbers of pages that are free and handed out exactly if none of the calls was `alloc`. -/
theorem stats_right_iff {ranges : List PageRange} (apart : ranges.Pairwise PageRange.Apart)
    {a : LinkedPages} (initialised : LinkedPages.Initialised ranges a) {calls : List PageCall}
    (ran : run ⟨a, []⟩ calls = some u) :
    ∃ l, FreeListAt u.allocator.memory u.allocator.lowMemFreeListHead l ∧
      (u.StatsRight l ↔ PageCall.alloc ∉ calls) := by
  have distinct := LinkedPages.flatMap_pages_nodup apart
  obtain ⟨l, lists, perm⟩ := initialised.built.lists apart
  obtain ⟨free, used⟩ := initialised.counts
  have start : Counted (ranges.flatMap PageRange.pages) ⟨a, []⟩ l := by
    refine ⟨⟨lists, ?_⟩, ?_, Nat.zero_le _⟩
    · rw [List.append_nil]
      exact perm
    · simp only [free, used, perm.length_eq, Nat.add_zero]
  obtain ⟨l', counted, zero⟩ := start.run distinct (LinkedPages.pages_lt ranges) ran
  refine ⟨l', counted.conserves.lists.list, ?_⟩
  rw [counted.statsRight_iff, zero, and_iff_right used]

/-- The allocator over two pages. -/
def twoFreePages : Option LinkedPages :=
  LinkedPages.initRange twoPages
    ((LinkedPages.blank fun _ _ => 0#64).withLimits 0x1000 0x4000 0)

theorem initialised_twoFreePages {a : LinkedPages} (done : twoFreePages = some a) :
    LinkedPages.Initialised [twoPages] a :=
  .range twoPages (.limits _ _ _ (.start ⟨_, rfl⟩)) done

/-- After the initialisation the counters are right. -/
theorem stats_right_twoFreePages : ∃ (a : LinkedPages) (l : List Nat),
    twoFreePages = some a ∧ FreeListAt a.memory a.lowMemFreeListHead l ∧
      StatsRight ⟨a, []⟩ l := by
  have returns : twoFreePages.isSome := by decide +kernel
  obtain ⟨a, done⟩ := Option.isSome_iff_exists.mp returns
  have none : run ⟨a, []⟩ [] = some ⟨a, []⟩ := rfl
  obtain ⟨l, list, right⟩ := stats_right_iff (List.pairwise_singleton _ _)
    (initialised_twoFreePages done) none
  exact ⟨a, l, done, list, right.mpr List.not_mem_nil⟩

/-- A page is taken and returned: both pages are free and none is handed out, but three pages are
counted as free and one as used. -/
theorem stats_wrong_after_return : ∃ (a : LinkedPages) (u : PageUse),
    twoFreePages = some a ∧ run ⟨a, []⟩ [.alloc, .free 0x3000] = some u ∧
      FreeListAt u.allocator.memory u.allocator.lowMemFreeListHead [0x3000, 0x2000] ∧
      u.outstanding = [] ∧ u.allocator.stats = (3, 1) := by
  have observed : (twoFreePages.bind fun a => run ⟨a, []⟩ [.alloc, .free 0x3000]).map
      (fun u => (u.allocator.lowMemFreeListHead, pointerAt (u.allocator.memory 0x3000 0),
        pointerAt (u.allocator.memory 0x2000 0), u.outstanding, u.allocator.stats)) =
      some (some 0x3000, some 0x2000, none, [], (3, 1)) := by
    decide +kernel
  obtain ⟨u, both, seen⟩ := Option.map_eq_some_iff.mp observed
  obtain ⟨a, done, ran⟩ := bind_eq_some.mp both
  simp only [Prod.mk.injEq] at seen
  obtain ⟨head, next, last, out, stats⟩ := seen
  exact ⟨a, u, done, ran, ⟨head, next, last⟩, out, stats⟩

end PageUse

end Emerald.MemoryManagement
