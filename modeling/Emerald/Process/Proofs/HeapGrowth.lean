
import Emerald.MemoryManagement.Proofs.EnoughPages
import Emerald.Process.Heap

/-!
# Growing and shrinking the heap

After every `sys_inc_heap` the pages user code can reach in the area of the heap should be those of
the heap. Three things go wrong. The sum of the size and the increment is a signed one and can
overflow. A heap that reaches the end of the user's addresses makes `map` panic. And `unmap` takes
the flags from the entries above level 1, so a heap that shrinks loses the permissions of the pages
that stay. `sysIncHeap_right_iff` says that nothing else does.
-/

namespace Emerald.Process

open MemoryManagement VirtualMemoryMapper

variable {p : Physical}
variable {m : Nat} {increment : BitVec 64}

namespace ProcessHeap

/-! ## What is asked for -/

/-- User code can reach the address. -/
def UserMapped (s : ProcessHeap) (address : Nat) : Prop :=
  ∃ writable, permission s.vm.pageMapL4 s.physical (pageNumber address) = some (writable, true)

/-- The size is within its limit, and in the area of the heap user code can reach the heap. -/
structure HeapRight (s : ProcessHeap) : Prop where
  bounded : s.heapSize ≤ s.heapMax
  mapped : ∀ address, s.heapStart ≤ address → address < s.heapStart + s.heapMax →
    (UserMapped s address ↔ address < s.heapStart + s.heapSize)

/-- What is asked of a call: the heap is right after it, a result is the end of the heap before it,
and an error changes nothing. -/
structure CallRight (s : ProcessHeap) (result : SyscallResult) (t : ProcessHeap) : Prop where
  right : HeapRight t
  ok : ∀ value, result = .ok value → value.toNat = s.heapStart + s.heapSize
  error : ∀ e, result = .error e → t = s

/-- There are as many free pages as a growing heap needs for its pages and their tables. -/
def PagesAvailable (s : ProcessHeap) (increment : BitVec 64) : Prop :=
  0 < increment.toInt → s.heapSize + increment.toInt.toNat ≤ s.heapMax →
    increment.toInt.toNat / page4K +
      (missingTables s.vm.pageMapL4 s.physical
        (pagesFrom (increment.toInt.toNat / page4K) (s.heapStart + s.heapSize))).card ≤
      s.physical.allocator.freeList.length

/-- The increments the call is right for: their sum with the size does not overflow, what a growing
heap adds passes the checks of `map`, and what a shrinking heap gives up is below other entries of
level 4 than the heap that stays. -/
structure Fits (s : ProcessHeap) (increment : BitVec 64) : Prop where
  sum : (s.heapSize : Int) + increment.toInt < 2 ^ 63
  grows : 0 < increment.toInt → s.heapSize + increment.toInt.toNat ≤ s.heapMax →
    userRangeOk heapFlags (s.heapStart + s.heapSize) increment.toInt.toNat
  shrinks : increment.toInt < 0 → ∀ kept lost, s.heapStart ≤ kept →
    kept + increment.toInt.natAbs < s.heapStart + s.heapSize →
    s.heapStart + s.heapSize ≤ lost + increment.toInt.natAbs →
    lost < s.heapStart + s.heapSize → increment.toInt.natAbs ≤ s.heapSize →
    getL4 kept ≠ getL4 lost

/-- The condition on an increment; one that is not a number of pages is refused anyway. -/
def Allowed (s : ProcessHeap) (increment : BitVec 64) : Prop :=
  isAligned increment.toInt.natAbs page4K = true → Fits s increment

/-- A new process: its heap is empty and nothing is mapped in the area of the heap. -/
structure FreshHeap (s : ProcessHeap) : Prop where
  tables : ∃ live, Base s.vm.pageMapL4 s.physical live ∧
    ∀ address, s.heapStart ≤ address → address < s.heapStart + s.heapMax →
      live (pageNumber address) = none
  user : s.vm.isUser = true
  start : page4K ∣ s.heapStart
  small : s.heapStart < 2 ^ 64
  size : s.heapSize = 0
  max : s.heapMax = defaultMaxHeapSize

/-- The runs of `sys_inc_heap` on a new process, with increments that are allowed. -/
abbrev ReachableHeap : ProcessHeap → Prop :=
  Reachable (fun s increment t => ∃ result, sysIncHeap s increment = some (result, t)) Allowed
    FreshHeap

/-! ## The pages of the heap -/

/-- The mapping of a page of the heap. -/
def heapMapping : Mapping := ⟨heapFlags, true⟩

/-- The heap's part of the mappings: `n` pages from page `k` on. -/
def heapPart (k n : Nat) : Mappings :=
  Mappings.setAll (fun _ => none) (pagesFrom n (page4K * k)) (some heapMapping)

/-- The pages of a range inside the area of the heap. -/
theorem page_mem_range {k n i : Nat} (near : i < 2 ^ 18) (few : n + m ≤ 2 ^ 18) :
    (k + i) % 2 ^ 36 ∈ pagesFrom m (page4K * (k + n)) ↔ n ≤ i ∧ i < n + m := by
  constructor
  · intro mem
    obtain ⟨j, less, same⟩ := mem_pagesFrom mem
    omega
  · rintro ⟨least, less⟩
    have inside := mem_pagesFrom_of_lt (k := k + n) (show i - n < m by omega)
    rwa [show k + n + (i - n) = k + i by omega] at inside

/-- The area after a range of it has got other mappings. -/
theorem setAll_area {live : Mappings} {k n i : Nat} {mapping : Option Mapping} (near : i < 2 ^ 18)
    (few : n + m ≤ 2 ^ 18) :
    live.setAll (pagesFrom m (page4K * (k + n))) mapping ((k + i) % 2 ^ 36) =
      if n ≤ i ∧ i < n + m then mapping else live ((k + i) % 2 ^ 36) := by
  rw [Mappings.setAll]
  simp only [page_mem_range near few]

theorem heapPart_eq_some {k n v : Nat} {m : Mapping} :
    heapPart k n v = some m ↔ v ∈ pagesFrom n (page4K * k) ∧ heapMapping = m := by
  simp [heapPart, Mappings.setAll]

theorem heapPart_add (k n m : Nat) :
    (heapPart k n).setAll (pagesFrom m (page4K * (k + n))) (some heapMapping) =
      heapPart k (n + m) := by
  funext v
  simp only [heapPart, Mappings.setAll, pagesFrom_add, List.mem_append]
  by_cases first : v ∈ pagesFrom n (page4K * k) <;>
    by_cases second : v ∈ pagesFrom m (page4K * (k + n)) <;> simp [first]

/-- The heap has `n` pages from page `k` on, and in its area these are what is mapped. -/
structure HeapTables (s : ProcessHeap) (live : Mappings) (k n : Nat) : Prop where
  base : Base s.vm.pageMapL4 s.physical live
  user : s.vm.isUser = true
  start : s.heapStart = page4K * k
  size : s.heapSize = page4K * n
  max : s.heapMax = defaultMaxHeapSize
  few : n ≤ 2 ^ 18
  below : page4K * (k + n) < 2 ^ 64
  area : ∀ i, i < 2 ^ 18 →
    live ((k + i) % 2 ^ 36) = if i < n then some heapMapping else none

section
variable {s : ProcessHeap} {live : Mappings} {k n size : Nat} {vm : VirtualMemoryMapper}

theorem pageNumber_add {i offset : Nat} (small : offset < page4K) :
    pageNumber (page4K * (k + i) + offset) = (k + i) % 2 ^ 36 := by
  simp only [pageNumber, page4K] at *
  omega

/-- An address of the area, by its page. -/
theorem HeapTables.page_of_address (tables : HeapTables s live k n) {address : Nat}
    (above : s.heapStart ≤ address) (inside : address < s.heapStart + s.heapMax) :
    ∃ i, i < 2 ^ 18 ∧ pageNumber address = (k + i) % 2 ^ 36 ∧
      (address < s.heapStart + s.heapSize ↔ i < n) := by
  rw [tables.start, tables.max] at inside
  rw [tables.start] at above
  rw [tables.start, tables.size]
  simp only [defaultMaxHeapSize, page4K] at *
  refine ⟨address / 4096 - k, by omega, ?_, by omega⟩
  simp only [pageNumber, page4K]
  omega

/-- The heap is right if user code can reach its pages. -/
theorem HeapTables.right_iff (tables : HeapTables s live k n) :
    HeapRight s ↔ ∀ i, i < n → ∃ writable,
      permission s.vm.pageMapL4 s.physical ((k + i) % 2 ^ 36) = some (writable, true) := by
  constructor
  · intro right i less
    have few := tables.few
    have reached := (right.mapped (page4K * (k + i))
      (by rw [tables.start]; simp only [page4K]; omega)
      (by rw [tables.start, tables.max]; simp only [defaultMaxHeapSize, page4K]; omega)).mpr
      (by rw [tables.start, tables.size]; simp only [page4K]; omega)
    unfold UserMapped at reached
    rwa [show page4K * (k + i) = page4K * (k + i) + 0 from rfl,
      pageNumber_add (by decide)] at reached
  · intro reached
    constructor
    · have few := tables.few
      rw [tables.size, tables.max]
      simp only [defaultMaxHeapSize, page4K]
      omega
    · intro address above inside
      obtain ⟨i, near, page, heap⟩ := tables.page_of_address above inside
      rw [UserMapped, page, heap]
      constructor
      · rintro ⟨writable, allowed⟩
        by_contra outside
        have absent := tables.area i near
        rw [if_neg outside] at absent
        rw [tables.base.permission_unmapped (Nat.mod_lt _ (by decide)) absent] at allowed
        cases allowed
      · exact fun less => reached i less

/-- The entries above the pages of the heap have their flags, so user code can reach them. -/
theorem HeapTables.right_of_covered (tables : HeapTables s live k n)
    (covered : Covered s.vm.pageMapL4 s.physical (heapPart k n)) : HeapRight s := by
  rw [tables.right_iff]
  intro i less
  have mapped := tables.area i (by have := tables.few; omega)
  rw [if_pos less] at mapped
  have part : heapPart k n ((k + i) % 2 ^ 36) = some heapMapping :=
    heapPart_eq_some.mpr ⟨mem_pagesFrom_of_lt less, rfl⟩
  obtain ⟨e4, e3, e2, at4, at3, at2, effective⟩ := tables.base.permission_eq mapped
  have user4 := (covered _ _ part _ (by simp [upperPaths]) e4 at4).2 rfl
  have user3 := (covered _ _ part _ (by simp [upperPaths]) e3 at3).2 rfl
  have user2 := (covered _ _ part _ (by simp [upperPaths]) e2 at2).2 rfl
  rw [effective, user4, user3, user2]
  exact ⟨_, rfl⟩

/-! ## `map` and `unmap` of pages of the heap -/

/-- `align_range` of whole pages. -/
theorem alignRange_pages (pos : 0 < m) (below : page4K * (k + m) < 2 ^ 64) :
    alignRange (page4K * k) (page4K * m) = some (page4K * k, page4K * m, 0) := by
  have aligned : isAligned (page4K * m) page4K = true :=
    (isAligned_page4K _).mpr (Nat.dvd_mul_right _ _)
  have first : wrapAdd (page4K * k) (page4K * m) = page4K * (k + m) := by
    rw [wrapAdd, ← Nat.mul_add, Nat.mod_eq_of_lt below]
  have last : alignDown (wrapAdd (page4K * (k + m)) (page4K - 1)) page4K = page4K * (k + m) := by
    simp only [alignDown, wrapAdd, page4K] at *
    omega
  have start : alignDown (page4K * k) page4K = page4K * k := by
    simp only [alignDown, page4K]
    omega
  have size : wrapSub (page4K * (k + m)) (page4K * k) = page4K * m := by
    simp only [wrapSub, page4K] at *
    omega
  simp only [alignRange, first, last, start, size]
  rw [if_pos ⟨by simp only [page4K]; omega, aligned⟩, Nat.sub_self]

/-- Below the kernel's entry of level 4 the end of a range of the heap does not wrap around. -/
theorem end_lt_of_userRangeOk (below : page4K * k < 2 ^ 64) (few : m ≤ 2 ^ 18)
    (checked : userRangeOk heapFlags (page4K * k) size) : page4K * (k + m) < 2 ^ 64 := by
  have level4 := checked.2.1
  simp only [getL4, kernelL4Index, page4K] at *
  omega

theorem map_pages (user : vm.isUser = true) (pos : 0 < m)
    (few : m ≤ 2 ^ 18) (below : page4K * k < 2 ^ 64) :
    vm.map (heapEntry (page4K * k) (page4K * m)) p =
      if userRangeOk heapFlags (page4K * k) (page4K * m) then
        mapPages vm.pageMapL4 heapFlags m (page4K * k) none p
      else none := by
  by_cases inside : page4K * (k + m) < 2 ^ 64
  · simp only [VirtualMemoryMapper.map, heapEntry, alignRange_pages pos inside, user, alignPhysical,
      some_bind, true_implies]
    rw [Nat.mul_div_cancel_left _ (by decide)]
  · -- the range would wrap around: `map` looks at its start first
    have refused : ∀ size, ¬ userRangeOk heapFlags (page4K * k) size :=
      fun size checked => inside (end_lt_of_userRangeOk below few checked)
    rw [if_neg (refused _)]
    cases done : vm.map (heapEntry (page4K * k) (page4K * m)) p with
    | none => rfl
    | some p' =>
      simp only [VirtualMemoryMapper.map, bind_eq_some, Prod.exists] at done
      obtain ⟨start, size, offset, aligned, done⟩ := done
      have first := alignRange_start aligned
      rw [heapEntry, Nat.mul_div_cancel_left _ (by decide)] at first
      rw [if_neg (fun all => refused size (first ▸ all user))] at done
      cases done

theorem unmap_pages (pos : 0 < m) (below : page4K * (k + m) < 2 ^ 64) :
    vm.unmap (heapEntry (page4K * k) (page4K * m)) true p =
      unmapPages vm.pageMapL4 heapFlags true m (page4K * k) p := by
  simp only [VirtualMemoryMapper.unmap, heapEntry, alignRange_pages pos below, some_bind, if_true]
  rw [Nat.mul_div_cancel_left _ (by decide)]

/-- The heap after it has grown by `m` pages. -/
theorem HeapTables.grow (tables : HeapTables s live k n)
    (covered : Covered s.vm.pageMapL4 s.physical (heapPart k n)) (few : n + m ≤ 2 ^ 18)
    (checked : userRangeOk heapFlags (page4K * (k + n)) size)
    (done : mapPages s.vm.pageMapL4 heapFlags m (page4K * (k + n)) none s.physical = some p) :
    HeapTables { s with heapSize := page4K * (n + m), physical := p }
      (live.setAll (pagesFrom m (page4K * (k + n))) (some heapMapping)) k (n + m) ∧
      Covered s.vm.pageMapL4 p (heapPart k (n + m)) := by
  have part : ∀ v m, heapPart k n v = some m → live v = some m := by
    intro v m here
    obtain ⟨mem, rfl⟩ := heapPart_eq_some.mp here
    obtain ⟨i, less, rfl⟩ := mem_pagesFrom mem
    rw [tables.area i (by omega), if_pos less]
  have below : page4K * (k + (n + m)) < 2 ^ 64 := by
    rw [← add_assoc]
    exact end_lt_of_userRangeOk tables.below (by omega) checked
  constructor
  · refine ⟨tables.base.mapPages done, tables.user, tables.start, rfl, tables.max, few, below,
      fun i near => ?_⟩
    rw [setAll_area near few, tables.area i near]
    grind
  · rw [← heapPart_add]
    exact tables.base.covered_mapPages part covered done

/-- The heap after it has shrunk by `m` pages, and what this does to the entries above level 1. -/
theorem HeapTables.shrink (tables : HeapTables s live k (n + m))
    (done : unmapPages s.vm.pageMapL4 heapFlags true m (page4K * (k + n)) s.physical = some p) :
    HeapTables { s with heapSize := page4K * n, physical := p }
      (live.setAll (pagesFrom m (page4K * (k + n))) none) k n ∧
      ∀ q, q.length ≤ 3 → pteAt s.vm.pageMapL4 p q =
        if ∃ page ∈ pagesFrom m (page4K * (k + n)), q ∈ upperPaths page then
          (pteAt s.vm.pageMapL4 s.physical q).map (· &&& ~~~heapFlags.bits)
        else pteAt s.vm.pageMapL4 s.physical q := by
  have few := tables.few
  have contract : ∀ page ∈ pagesFrom m (page4K * (k + n)), ∀ found, live page = some found →
      true = true → found.allocated = true := by
    intro page mem found here _
    obtain ⟨i, less, rfl⟩ := mem_pagesFrom mem
    rw [add_assoc, tables.area (n + i) (by omega), if_pos (by omega)] at here
    rw [← Option.some.inj here]
    rfl
  obtain ⟨base, upper⟩ := tables.base.unmapPages contract done
  have below := tables.below
  refine ⟨⟨base, tables.user, tables.start, rfl, tables.max, by omega, ?_, fun i near => ?_⟩, upper⟩
  · simp only [page4K] at *
    omega
  · rw [setAll_area near few, tables.area i near]
    grind

/-- The pages of a heap can be unmapped. -/
theorem HeapTables.shrink_returns (tables : HeapTables s live k (n + m)) :
    ∃ p, unmapPages s.vm.pageMapL4 heapFlags true m (page4K * (k + n)) s.physical = some p := by
  have few := tables.few
  refine tables.base.unmapPages_returns (pagesFrom_nodup (by omega)) ?_
  intro page mem
  obtain ⟨i, less, rfl⟩ := mem_pagesFrom mem
  rw [add_assoc, tables.area (n + i) (by omega), if_pos (by omega)]
  exact ⟨heapMapping, rfl, rfl⟩

/-- No page that a heap of `n` pages gives up after it is below the entry of level 4 of one it
keeps. -/
def ApartAtLevel4 (k n m : Nat) : Prop :=
  ∀ i, i < n → ∀ j, j < m → index4 ((k + i) % 2 ^ 36) ≠ index4 ((k + n + j) % 2 ^ 36)

/-- A heap that shrinks keeps the permissions of its pages exactly if what it gives up is apart from
what it keeps. -/
theorem HeapTables.right_shrink_iff (tables : HeapTables s live k (n + m))
    (covered : Covered s.vm.pageMapL4 s.physical (heapPart k (n + m)))
    (done : unmapPages s.vm.pageMapL4 heapFlags true m (page4K * (k + n)) s.physical = some p) :
    (HeapRight { s with heapSize := page4K * n, physical := p } ↔ ApartAtLevel4 k n m) ∧
      (ApartAtLevel4 k n m → Covered s.vm.pageMapL4 p (heapPart k n)) := by
  obtain ⟨tables', upper⟩ := tables.shrink done
  have few := tables.few
  have keeps : ApartAtLevel4 k n m → Covered s.vm.pageMapL4 p (heapPart k n) := by
    intro apart v found here path mem e there
    obtain ⟨inside, rfl⟩ := heapPart_eq_some.mp here
    obtain ⟨i, less, rfl⟩ := mem_pagesFrom inside
    rw [upper path (length_of_mem_upperPaths mem), if_neg] at there
    · refine covered _ heapMapping ?_ path mem e there
      exact heapPart_eq_some.mpr ⟨mem_pagesFrom_of_lt (by omega), rfl⟩
    · rintro ⟨page, lost, mem'⟩
      obtain ⟨j, less', rfl⟩ := mem_pagesFrom lost
      exact apart i less j less' (AddressSpace.index4_eq_of_mem mem mem')
  refine ⟨⟨?_, fun apart => tables'.right_of_covered (keeps apart)⟩, keeps⟩
  intro right i less j less' same
  obtain ⟨writable, allowed⟩ := tables'.right_iff.mp right i less
  have mapped := tables'.area i (by omega)
  rw [if_pos less] at mapped
  obtain ⟨e4, e3, e2, at4, -, -, effective⟩ := tables'.base.permission_eq mapped
  rw [effective] at allowed
  -- the entry of level 4 has lost `PTE_USER`
  have lost : isUserPage e4 = false := by
    have after := upper [index4 ((k + i) % 2 ^ 36)] (by simp)
    rw [if_pos ⟨_, mem_pagesFrom_of_lt less', same ▸ List.mem_cons_self⟩] at after
    have at4' : pteAt s.vm.pageMapL4 p [index4 ((k + i) % 2 ^ 36)] = some e4 := at4
    rw [at4'] at after
    obtain ⟨e, -, rfl⟩ := after
    rw [isUserPage_and_not_bits]
    exact Bool.and_false _
  rw [lost] at allowed
  simp at allowed

/-! ## One call -/

theorem sysIncHeap_unaligned (unaligned : isAligned increment.toInt.natAbs page4K = false) :
    sysIncHeap s increment = some (.error (toArgErr0 .invalidHeapIncrement), s) := by
  rw [sysIncHeap, if_neg (by rw [unaligned]; decide)]

section
variable (tables : HeapTables s live k n)
include tables

theorem HeapTables.sum_eq :
    s.heapStart + s.heapSize = page4K * (k + n) := by
  rw [tables.start, tables.size, mul_add]

theorem HeapTables.heapEnd_eq :
    s.heapEnd = some (page4K * (k + n)) := by
  rw [heapEnd, tables.sum_eq, if_pos tables.below]

theorem HeapTables.sysIncHeap_zero (zero : increment.toInt = 0) :
    sysIncHeap s increment = some (.ok (BitVec.ofNat 64 (page4K * (k + n))), s) := by
  have aligned : isAligned increment.toInt.natAbs page4K = true := by
    rw [zero]
    decide
  rw [sysIncHeap, if_pos aligned, addToHeap, if_pos zero, tables.heapEnd_eq]
  simp only [some_bind]

end

section
variable {increment : BitVec 64} (aligned : isAligned increment.toInt.natAbs page4K = true)
  (nonzero : increment.toInt ≠ 0)
include aligned nonzero

theorem sysIncHeap_overflow (large : 2 ^ 63 ≤ (s.heapSize : Int) + increment.toInt) :
    sysIncHeap s increment = none := by
  simp only [sysIncHeap, addToHeap, aligned, if_neg nonzero, if_pos large, if_true,
    Option.bind_eq_bind, Option.bind_none]

theorem sysIncHeap_exceeds (small : (s.heapSize : Int) + increment.toInt < 2 ^ 63)
    (outside : (s.heapSize : Int) + increment.toInt < 0 ∨
      s.heapMax < ((s.heapSize : Int) + increment.toInt).toNat) :
    sysIncHeap s increment = some (.error .heapRangesExceeded, s) := by
  simp only [sysIncHeap, addToHeap, aligned, if_neg nonzero, if_neg (Int.not_le.mpr small),
    if_pos outside, if_true, some_bind]

/-- A heap that changes its size within its limits: what is left is `map` or `unmap`. -/
theorem HeapTables.sysIncHeap_inside (tables : HeapTables s live k n)
    (small : (s.heapSize : Int) + increment.toInt < 2 ^ 63)
    (inside : ¬ ((s.heapSize : Int) + increment.toInt < 0 ∨
      s.heapMax < ((s.heapSize : Int) + increment.toInt).toNat)) :
    sysIncHeap s increment =
      (if 0 < increment.toInt then
        s.vm.map (heapEntry (page4K * (k + n)) increment.toInt.toNat) s.physical
      else s.vm.unmap (heapEntry (page4K * (k + n) - increment.toInt.natAbs)
        increment.toInt.natAbs) true s.physical).map fun p =>
          (.ok (BitVec.ofNat 64 (page4K * (k + n))),
            { s with
              heapSize := ((s.heapSize : Int) + increment.toInt).toNat
              physical := p }) := by
  simp only [sysIncHeap, addToHeap, aligned, if_neg nonzero, if_neg (Int.not_le.mpr small),
    if_neg inside, tables.heapEnd_eq, some_bind]
  by_cases grows : 0 < increment.toInt
  · rw [if_pos grows, if_pos grows]
    cases s.vm.map (heapEntry (page4K * (k + n)) increment.toInt.toNat) s.physical <;> rfl
  · rw [if_neg grows, if_neg grows]
    cases s.vm.unmap (heapEntry (page4K * (k + n) - increment.toInt.natAbs)
      increment.toInt.natAbs) true s.physical <;> rfl

end

/-- What an increment asks of a heap of `n` pages. -/
inductive Asks (s : ProcessHeap) (n : Nat) (increment : BitVec 64) : Prop
  | unaligned (refused : isAligned increment.toInt.natAbs page4K = false)
  | zero (nothing : increment.toInt = 0)
  | overflow (panics : sysIncHeap s increment = none) (large : ¬ Allowed s increment)
  | exceeds (fails : sysIncHeap s increment = some (.error .heapRangesExceeded, s))
      (allowed : Allowed s increment)
  | grow (m : Nat) (pos : 0 < m) (few : n + m ≤ 2 ^ 18)
      (pages : increment.toInt = (page4K * m : Nat))
  | shrink (rest m : Nat) (pos : 0 < m) (split : n = rest + m)
      (pages : increment.toInt = -((page4K * m : Nat) : Int))

theorem HeapTables.asks (tables : HeapTables s live k n) (increment : BitVec 64) :
    Asks s n increment := by
  by_cases aligned : isAligned increment.toInt.natAbs page4K = true
  · by_cases nonzero : increment.toInt = 0
    · exact .zero nonzero
    · by_cases small : (s.heapSize : Int) + increment.toInt < 2 ^ 63
      · by_cases outside : (s.heapSize : Int) + increment.toInt < 0 ∨
          s.heapMax < ((s.heapSize : Int) + increment.toInt).toNat
        · refine .exceeds (sysIncHeap_exceeds aligned nonzero small outside)
            fun _ => ⟨small, fun _ _ => by omega, ?_⟩
          have few := tables.few
          have max : s.heapMax = 2 ^ 30 := tables.max
          intro negative kept lost _ _ _ _ enough
          rw [tables.size] at outside enough
          simp only [page4K] at outside enough
          omega
        · obtain ⟨m, pages⟩ := (isAligned_page4K _).mp aligned
          rw [tables.size, tables.max] at outside
          simp only [defaultMaxHeapSize, page4K] at outside pages
          by_cases sign : 0 < increment.toInt
          · exact .grow m (by omega) (by omega) (by simp only [page4K]; omega)
          · exact .shrink (n - m) m (by omega) (by omega) (by simp only [page4K]; omega)
      · exact .overflow (sysIncHeap_overflow aligned nonzero (Int.not_lt.mp small))
          fun allowed => small (allowed aligned).sum
  · exact .unaligned (Bool.eq_false_iff.mpr aligned)

section
variable {increment : BitVec 64} {m rest : Nat}

theorem aligned_of_pages (pages : increment.toInt.natAbs = page4K * m) :
    isAligned increment.toInt.natAbs page4K = true :=
  (isAligned_page4K _).mpr ⟨m, pages⟩

theorem allowed_iff_fits (pages : increment.toInt.natAbs = page4K * m) :
    Allowed s increment ↔ Fits s increment :=
  ⟨fun all => all (aligned_of_pages pages), fun fits _ => fits⟩

section
variable (tables : HeapTables s live k n) (pos : 0 < m) (few : n + m ≤ 2 ^ 18)
  (pages : increment.toInt = (page4K * m : Nat))
include tables pos few pages

/-- A heap that grows by `m` pages. -/
theorem HeapTables.sysIncHeap_grow :
    sysIncHeap s increment =
      (if userRangeOk heapFlags (page4K * (k + n)) (page4K * m) then
        mapPages s.vm.pageMapL4 heapFlags m (page4K * (k + n)) none s.physical
      else none).map fun p => (.ok (BitVec.ofNat 64 (page4K * (k + n))),
        { s with heapSize := page4K * (n + m), physical := p }) := by
  have size : ((s.heapSize : Int) + increment.toInt).toNat = page4K * (n + m) := by
    rw [tables.size, pages, ← Int.natCast_add, Int.toNat_natCast, mul_add]
  have max : s.heapMax = 2 ^ 30 := tables.max
  have sign : 0 < increment.toInt := by
    rw [pages]
    simp only [page4K]
    omega
  rw [tables.sysIncHeap_inside (aligned_of_pages (m := m) (by rw [pages, Int.natAbs_natCast]))
      (Int.ne_of_gt sign) (by rw [tables.size, pages]; simp only [page4K]; omega)
      (by rw [size]; simp only [page4K]; omega),
    if_pos sign, size, pages, Int.toNat_natCast, map_pages tables.user pos (by omega) tables.below]

/-- Which growths fit. -/
theorem HeapTables.fits_grow_iff :
    Fits s increment ↔ userRangeOk heapFlags (page4K * (k + n)) (page4K * m) := by
  have size : increment.toInt.toNat = page4K * m := by rw [pages, Int.toNat_natCast]
  constructor
  · intro fits
    have checked := fits.grows (by rw [pages]; simp only [page4K]; omega)
      (by rw [size, tables.size, tables.max]; simp only [defaultMaxHeapSize, page4K]; omega)
    rwa [tables.sum_eq, size] at checked
  · intro checked
    refine ⟨?_, fun _ _ => ?_, fun negative => ?_⟩
    · rw [tables.size, pages]
      simp only [page4K]
      omega
    · rwa [tables.sum_eq, size]
    · omega

end

section
variable (tables : HeapTables s live k (rest + m)) (pos : 0 < m)
  (pages : increment.toInt = -((page4K * m : Nat) : Int))
include tables pos pages

/-- A heap that shrinks by `m` pages. -/
theorem HeapTables.sysIncHeap_shrink :
    sysIncHeap s increment =
      (unmapPages s.vm.pageMapL4 heapFlags true m (page4K * (k + rest)) s.physical).map fun p =>
        (.ok (BitVec.ofNat 64 (page4K * (k + (rest + m)))),
          { s with heapSize := page4K * rest, physical := p }) := by
  have few := tables.few
  have size : ((s.heapSize : Int) + increment.toInt).toNat = page4K * rest := by
    rw [tables.size, pages]
    simp only [page4K]
    omega
  have max : s.heapMax = 2 ^ 30 := tables.max
  have sign : ¬ 0 < increment.toInt := by omega
  have absolute : increment.toInt.natAbs = page4K * m := by
    rw [pages, Int.natAbs_neg, Int.natAbs_natCast]
  have start : page4K * (k + (rest + m)) - page4K * m = page4K * (k + rest) := by
    simp only [page4K]
    omega
  rw [tables.sysIncHeap_inside (aligned_of_pages (m := m) absolute)
      (by rw [pages]; simp only [page4K]; omega) (by rw [tables.size]; simp only [page4K]; omega)
      (by rw [tables.size, pages]; simp only [page4K]; omega),
    if_neg sign, size, absolute, start, unmap_pages pos (by rw [add_assoc]; exact tables.below)]

/-- Which shrinkings fit. -/
theorem HeapTables.fits_shrink_iff :
    Fits s increment ↔ ApartAtLevel4 k rest m := by
  have few := tables.few
  have absolute : increment.toInt.natAbs = page4K * m := by
    rw [pages, Int.natAbs_neg, Int.natAbs_natCast]
  have negative : increment.toInt < 0 := by
    rw [pages]
    simp only [page4K]
    omega
  have level4 : ∀ i, getL4 (page4K * (k + i)) = index4 ((k + i) % 2 ^ 36) := by
    intro i
    rw [getL4_eq, ← pageNumber_add (show 0 < page4K by decide), add_zero]
  constructor
  · intro fits i less j less'
    have apart := fits.shrinks negative (page4K * (k + i)) (page4K * (k + (rest + j)))
    rw [tables.start, tables.size, absolute, level4, level4, ← add_assoc] at apart
    simp only [page4K] at apart
    exact apart (by omega) (by omega) (by omega) (by omega) (by omega)
  · intro apart
    refine ⟨?_, fun pos => absurd pos (by omega), ?_⟩
    · rw [tables.size]
      simp only [page4K]
      omega
    · intro _ kept lost above inside after before enough
      rw [tables.start, tables.size] at inside after before
      rw [tables.start] at above
      have first : pageNumber kept = (k + (kept / page4K - k)) % 2 ^ 36 := by
        simp only [pageNumber, page4K] at *
        omega
      have second : pageNumber lost = (k + rest + (lost / page4K - (k + rest))) % 2 ^ 36 := by
        simp only [pageNumber, page4K] at *
        omega
      rw [getL4_eq, getL4_eq, first, second]
      simp only [page4K] at *
      exact apart _ (by omega) _ (by omega)

end

end

/-- A call returns with what is asked of it exactly if its increment is allowed, while there are
enough free pages. -/
theorem HeapTables.callRight_iff (tables : HeapTables s live k n)
    (covered : Covered s.vm.pageMapL4 s.physical (heapPart k n))
    (available : PagesAvailable s increment) :
    (∃ result t, sysIncHeap s increment = some (result, t) ∧ CallRight s result t) ↔
      Allowed s increment := by
  have right := tables.right_of_covered covered
  have few := tables.few
  have size := tables.size
  have max : s.heapMax = 2 ^ 30 := tables.max
  -- a result is the end of the heap before the call
  have previous : ∀ value, (.ok (BitVec.ofNat 64 (page4K * (k + n))) : SyscallResult) =
      .ok value → value.toNat = s.heapStart + s.heapSize := by
    intro value same
    rw [← Except.ok.inj same, BitVec.toNat_ofNat, Nat.mod_eq_of_lt tables.below, tables.sum_eq]
  cases tables.asks increment with
  | unaligned refused =>
    refine iff_of_true ⟨_, s, sysIncHeap_unaligned refused, right, by simp, fun _ _ => rfl⟩ ?_
    intro aligned
    rw [refused] at aligned
    cases aligned
  | zero nothing =>
    refine iff_of_true ⟨_, s, tables.sysIncHeap_zero nothing, right, previous, by simp⟩ ?_
    intro _
    refine ⟨?_, fun positive => absurd positive (by omega),
      fun negative => absurd negative (by omega)⟩
    rw [size]
    simp only [page4K]
    omega
  | overflow panics large =>
    refine iff_of_false ?_ large
    rintro ⟨result, t, done, -⟩
    rw [panics] at done
    cases done
  | exceeds fails allowed =>
    exact iff_of_true ⟨_, s, fails, right, by simp, fun _ _ => rfl⟩ allowed
  | grow m pos few' pages =>
    rw [allowed_iff_fits (m := m) (by rw [pages, Int.natAbs_natCast]),
      tables.fits_grow_iff pos few' pages, tables.sysIncHeap_grow pos few' pages]
    by_cases checked : userRangeOk heapFlags (page4K * (k + n)) (page4K * m)
    · have enough := available (by rw [pages]; simp only [page4K]; omega)
        (by rw [pages, size, max]; simp only [page4K]; omega)
      rw [pages, Int.toNat_natCast, Nat.mul_div_cancel_left _ (by decide), tables.sum_eq] at enough
      obtain ⟨p, done⟩ := tables.base.mapPages_returns heapFlags enough
      obtain ⟨tables', covered'⟩ := tables.grow covered few' checked done
      refine iff_of_true ⟨_, _, by rw [if_pos checked, done]; rfl,
        tables'.right_of_covered covered', previous, by simp⟩ checked
    · refine iff_of_false ?_ checked
      rintro ⟨result, t, done, -⟩
      rw [if_neg checked] at done
      cases done
  | shrink rest m pos split pages =>
    subst split
    obtain ⟨p, done⟩ := tables.shrink_returns
    obtain ⟨iff, -⟩ := tables.right_shrink_iff covered done
    rw [allowed_iff_fits (m := m) (by rw [pages, Int.natAbs_neg, Int.natAbs_natCast]),
      tables.fits_shrink_iff pos pages, ← iff, tables.sysIncHeap_shrink pos pages, done]
    constructor
    · rintro ⟨result, t, same, call⟩
      cases same
      exact call.right
    · intro right'
      exact ⟨_, _, rfl, right', previous, by simp⟩

/-- The tables of a heap that starts at page `k`, and the entries above its pages. -/
def InOrder (s : ProcessHeap) (k : Nat) : Prop :=
  ∃ live n, HeapTables s live k n ∧ Covered s.vm.pageMapL4 s.physical (heapPart k n)

/-- An allowed call keeps the tables of the heap in order. -/
theorem HeapTables.step {t : ProcessHeap} (tables : HeapTables s live k n)
    (covered : Covered s.vm.pageMapL4 s.physical (heapPart k n))
    {result : SyscallResult} (allowed : Allowed s increment)
    (done : sysIncHeap s increment = some (result, t)) : InOrder t k := by
  have unchanged : ∀ {r}, sysIncHeap s increment = some (r, s) → InOrder t k := by
    intro r same
    rw [same] at done
    cases done
    exact ⟨live, n, tables, covered⟩
  cases tables.asks increment with
  | unaligned refused => exact unchanged (sysIncHeap_unaligned refused)
  | zero nothing => exact unchanged (tables.sysIncHeap_zero nothing)
  | overflow panics large =>
    rw [panics] at done
    cases done
  | exceeds fails _ => exact unchanged fails
  | grow m pos few pages =>
    rw [tables.sysIncHeap_grow pos few pages, Option.map_eq_some_iff] at done
    obtain ⟨p, mapped, same⟩ := done
    cases same
    split at mapped
    · rename_i checked
      exact ⟨_, _, tables.grow covered few checked mapped⟩
    · cases mapped
  | shrink rest m pos split pages =>
    subst split
    rw [allowed_iff_fits (m := m) (by rw [pages, Int.natAbs_neg, Int.natAbs_natCast]),
      tables.fits_shrink_iff pos pages] at allowed
    rw [tables.sysIncHeap_shrink pos pages, Option.map_eq_some_iff] at done
    obtain ⟨p, unmapped, same⟩ := done
    cases same
    exact ⟨_, _, (tables.shrink unmapped).1, (tables.right_shrink_iff covered unmapped).2 allowed⟩

end

/-! ## Runs -/

theorem FreshHeap.heapTables {s : ProcessHeap} (fresh : FreshHeap s) : ∃ k, InOrder s k := by
  obtain ⟨live, base, free⟩ := fresh.tables
  obtain ⟨k, start⟩ := fresh.start
  have small := fresh.small
  refine ⟨k, live, 0, ⟨base, fresh.user, start, fresh.size, fresh.max, by omega, ?_, ?_⟩, ?_⟩
  · rw [add_zero, ← start]
    exact small
  · intro i near
    rw [← pageNumber_add (show 0 < page4K by decide)]
    refine free _ ?_ ?_
    · rw [start]
      simp only [page4K]
      omega
    · rw [start, fresh.max]
      simp only [defaultMaxHeapSize, page4K]
      omega
  · intro v m here
    simp [heapPart_eq_some, pagesFrom] at here

/-- In every state that allowed calls lead to the heap is right, and while there are enough free
pages a call returns with what is asked of it exactly if its increment is allowed. -/
theorem sysIncHeap_right_iff (s : ProcessHeap) (reached : ReachableHeap s) :
    HeapRight s ∧ ∀ increment, PagesAvailable s increment →
      ((∃ result t, sysIncHeap s increment = some (result, t) ∧ CallRight s result t) ↔
        Allowed s increment) := by
  have inv : ∃ k, InOrder s k := by
    refine Reachable.invariant (P := fun s => ∃ k, InOrder s k) ?_ ?_ s reached
    · exact fun s fresh => fresh.heapTables
    · rintro s increment t ⟨k, live, n, tables, covered⟩ allowed ⟨result, done⟩
      exact ⟨k, tables.step covered allowed done⟩
  obtain ⟨k, live, n, tables, covered⟩ := inv
  exact ⟨tables.right_of_covered covered,
    fun increment available => tables.callRight_iff covered available⟩

/-- A new process on a machine with eleven free pages. -/
def newHeap : ProcessHeap where
  vm := ⟨0, true⟩
  heapStart := 2 ^ 21
  heapSize := 0
  heapMax := defaultMaxHeapSize
  physical := AddressSpace.emptySpace.physical

theorem freshHeap_newHeap : FreshHeap newHeap where
  tables := ⟨fun _ => none, AddressSpace.base_of_fresh AddressSpace.fresh_emptySpace,
    fun _ _ _ => rfl⟩
  user := rfl
  start := by decide
  small := by decide
  size := rfl
  max := rfl

/-- A page can be added to the heap of the new process. -/
theorem newHeap_grows : ∃ result t, sysIncHeap newHeap 4096#64 = some (result, t) ∧
    CallRight newHeap result t := by
  have available : PagesAvailable newHeap 4096#64 := by
    intro _ _
    decide +kernel
  refine ((sysIncHeap_right_iff newHeap (.start freshHeap_newHeap)).2 _ available).mpr ?_
  exact fun _ => ⟨by decide, fun _ _ => by decide, fun negative => absurd negative (by decide)⟩

/-- With two pages of heap, an increment whose sum with the size overflows makes the call panic; and
if the process gives the second page back, user code cannot reach the first one any more. -/
theorem heap_breaks : ∃ s, ReachableHeap s ∧
    PagesAvailable s 0x7FFFFFFFFFFFF000#64 ∧ sysIncHeap s 0x7FFFFFFFFFFFF000#64 = none ∧
    ∃ result t, sysIncHeap s (-4096#64) = some (result, t) ∧ ¬ HeapRight t := by
  have run : ((sysIncHeap newHeap 8192#64).bind fun grown =>
      (sysIncHeap grown.2 (-4096#64)).map fun shrunk =>
        ([grown.2.heapSize, grown.2.heapMax, shrunk.2.heapStart, shrunk.2.heapSize,
          shrunk.2.heapMax], permission shrunk.2.vm.pageMapL4 shrunk.2.physical 512)) =
      some ([8192, 2 ^ 30, 2 ^ 21, 4096, 2 ^ 30], some (false, false)) := by decide +kernel
  obtain ⟨⟨grew, s⟩, grown, rest⟩ := bind_eq_some.mp run
  obtain ⟨⟨result, t⟩, shrunk, facts⟩ := Option.map_eq_some_iff.mp rest
  simp only [Prod.mk.injEq, List.cons.injEq, and_true] at facts
  obtain ⟨⟨size, max, start', size', max'⟩, unreachable⟩ := facts
  have allowed : Allowed newHeap 8192#64 := by
    exact fun _ => ⟨by decide, fun _ _ => by decide, fun negative => absurd negative (by decide)⟩
  refine ⟨s, .call _ (.start freshHeap_newHeap) allowed ⟨grew, grown⟩, ?_, ?_, result, t, shrunk,
    ?_⟩
  · intro _ inside
    rw [size, max] at inside
    exact absurd inside (by decide)
  · exact sysIncHeap_overflow (by decide) (by decide) (by rw [size]; decide)
  · intro right
    obtain ⟨writable, reached⟩ := (right.mapped (2 ^ 21) (by omega) (by omega)).mpr (by omega)
    rw [show pageNumber (2 ^ 21) = 512 by decide, unreachable] at reached
    cases reached

end ProcessHeap

end Emerald.Process
