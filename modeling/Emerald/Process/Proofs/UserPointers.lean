
import Emerald.MemoryManagement.Proofs.Teardown
import Emerald.Process.Syscalls

/-!
# Pointers of a process

What the kernel relies on after it has checked a pointer of a process is that the whole range
belongs to user pages of that process. The checks ask for less: they look at the pages of the
first and of the last byte only, and not at `PTE_USER`.
-/

namespace Emerald.Process

open MemoryManagement

/-- The addresses a processor of four page levels can translate. -/
def Canonical (addr : Nat) : Prop := addr < 2 ^ 47 ∨ (2 ^ 64 - 2 ^ 47 ≤ addr ∧ addr < 2 ^ 64)

instance : DecidablePred Canonical := fun _ => inferInstanceAs (Decidable (_ ∨ _))

/-- An entry that user code may go through. -/
def isUserEntry (entry : BitVec 64) : Bool := isPresent entry && entry &&& pteUser != 0#64

section
variable (vm : VirtualMemoryMapper) (memory : PhysicalMemory)

/-- The byte lies in a page that is mapped with `PTE_USER` at all levels. -/
def UserMapped (addr : Nat) : Prop :=
  let l4 := memory vm.pageMapL4 (getL4 addr)
  let l3 := memory (tableOf l4) (getL3 addr)
  let l2 := memory (tableOf l3) (getL2 addr)
  let l1 := memory (tableOf l2) (getL1 addr)
  Canonical addr ∧ isUserEntry l4 = true ∧ isUserEntry l3 = true ∧ isUserEntry l2 = true ∧
    (l2 &&& pteHugePage ≠ 0#64 ∨ isUserEntry l1 = true)

instance : DecidablePred (UserMapped vm memory) := fun _ => inferInstanceAs (Decidable (_ ∧ _))

/-- The range does not wrap around, and its bytes are all mapped for user code. -/
def RangeUserMapped (start bytes : Nat) : Prop :=
  start + bytes ≤ 2 ^ 64 ∧ ∀ i < bytes, UserMapped vm memory (start + i)

/-- User code may go through the entries of the byte, if they are present. -/
def UserEntries (addr : Nat) : Prop :=
  let l4 := memory vm.pageMapL4 (getL4 addr)
  let l3 := memory (tableOf l4) (getL3 addr)
  let l2 := memory (tableOf l3) (getL2 addr)
  let l1 := memory (tableOf l2) (getL1 addr)
  Canonical addr ∧ l4 &&& pteUser ≠ 0#64 ∧ l3 &&& pteUser ≠ 0#64 ∧ l2 &&& pteUser ≠ 0#64 ∧
    (l2 &&& pteHugePage ≠ 0#64 ∨ l1 &&& pteUser ≠ 0#64)

instance : DecidablePred (UserEntries vm memory) := fun _ => inferInstanceAs (Decidable (_ ∧ _))

/-- What the check of a range leaves open: that the range does not wrap around, `PTE_USER` for the
pages of its first and last byte, and everything about the pages between them. -/
def OnlyUserPages (start bytes : Nat) : Prop :=
  start + bytes ≤ 2 ^ 64 ∧ UserEntries vm memory start ∧
    UserEntries vm memory (start + bytes - 1) ∧
    ∀ page, start / page4K < page → page < (start + bytes - 1) / page4K →
      UserMapped vm memory (page4K * page)

end

section
variable {vm : VirtualMemoryMapper} {memory : PhysicalMemory} {len bytes sizeOf start arg buf : Nat}
variable {slice : UserSlice}

theorem getL_page (addr : Nat) :
    getL4 (page4K * (addr / page4K)) = getL4 addr ∧
      getL3 (page4K * (addr / page4K)) = getL3 addr ∧
      getL2 (page4K * (addr / page4K)) = getL2 addr ∧
      getL1 (page4K * (addr / page4K)) = getL1 addr := by
  unfold getL4 getL3 getL2 getL1 page4K
  omega

theorem canonical_page (addr : Nat) : Canonical (page4K * (addr / page4K)) ↔ Canonical addr := by
  unfold Canonical page4K
  omega

/-- The bytes of a page are all mapped for user code if the first one is. -/
theorem userMapped_page (addr : Nat) :
    UserMapped vm memory (page4K * (addr / page4K)) ↔ UserMapped vm memory addr := by
  obtain ⟨same4, same3, same2, same1⟩ := getL_page addr
  simp only [UserMapped, canonical_page, same4, same3, same2, same1]

/-- The bytes of a range are mapped just where its pages are. -/
theorem forall_userMapped_iff (some_byte : 0 < bytes) :
    (∀ i < bytes, UserMapped vm memory (start + i)) ↔
      ∀ page, start / page4K ≤ page → page ≤ (start + bytes - 1) / page4K →
        UserMapped vm memory (page4K * page) := by
  constructor
  · intro mapped page above below
    -- the byte of the range that comes first in the page
    let byte := max start (page4K * page)
    have inPage : byte / page4K = page := by
      simp only [byte, page4K] at *
      omega
    have inRange : start ≤ byte ∧ byte < start + bytes := by
      simp only [byte, page4K] at *
      omega
    have byteMapped := mapped (byte - start) (by omega)
    rw [Nat.add_sub_cancel' inRange.1, ← userMapped_page, inPage] at byteMapped
    exact byteMapped
  · intro mapped i inRange
    refine (userMapped_page _).mp (mapped _ ?_ ?_)
    · exact Nat.div_le_div_right (Nat.le_add_right _ _)
    · exact Nat.div_le_div_right (by omega)

/-- The last byte in machine arithmetic; the length may have wrapped around too. -/
theorem last_byte_eq (some_byte : 0 < bytes) (same : len % 2 ^ 64 = bytes % 2 ^ 64) :
    wrapSub (wrapAdd start len) 1 = (start + bytes - 1) % 2 ^ 64 := by
  unfold wrapSub wrapAdd
  omega

theorem checkPtr_eq_ok_iff (some_byte : 0 < bytes) (same : len % 2 ^ 64 = bytes % 2 ^ 64) :
    checkPtr vm memory arg len = .ok () ↔
      arg ≠ 0 ∧ vm.isAddressMapped memory arg = true ∧
        vm.isAddressMapped memory ((arg + bytes - 1) % 2 ^ 64) = true := by
  rw [checkPtr, last_byte_eq some_byte same]
  generalize (arg + bytes - 1) % 2 ^ 64 = last
  by_cases null : arg = 0
  · simp [null]
  · by_cases firstMapped : vm.isAddressMapped memory arg = true <;>
      by_cases lastMapped : vm.isAddressMapped memory last = true <;>
      simp [isUserAddressMapped, firstMapped, lastMapped]

theorem userMapped_iff {addr : Nat} (mapped : vm.isAddressMapped memory addr = true) :
    UserMapped vm memory addr ↔ UserEntries vm memory addr := by
  simp only [VirtualMemoryMapper.isAddressMapped, Bool.and_eq_true, Bool.or_eq_true,
    bne_iff_ne] at mapped
  obtain ⟨⟨⟨present4, present3⟩, present2⟩, huge | present1⟩ := mapped
  · simp only [UserMapped, UserEntries, isUserEntry, present4, present3, present2, huge,
      Bool.true_and, bne_iff_ne, ne_eq, not_false_eq_true, true_or]
  · simp only [UserMapped, UserEntries, isUserEntry, present4, present3, present2, present1,
      Bool.true_and, bne_iff_ne]

/-- The one fact behind the four functions. -/
theorem checkPtr_rangeUserMapped (same : len % 2 ^ 64 = bytes % 2 ^ 64)
    (checked : checkPtr vm memory arg len = .ok ()) (some_byte : 0 < bytes) :
    RangeUserMapped vm memory arg bytes ↔ OnlyUserPages vm memory arg bytes := by
  obtain ⟨-, first, last⟩ := (checkPtr_eq_ok_iff some_byte same).mp checked
  refine and_congr_right fun fits => ?_
  rw [Nat.mod_eq_of_lt (show arg + bytes - 1 < 2 ^ 64 by omega)] at last
  have ordered : arg / page4K ≤ (arg + bytes - 1) / page4K := Nat.div_le_div_right (by omega)
  rw [forall_userMapped_iff some_byte, ← userMapped_iff first, ← userMapped_iff last]
  constructor
  · intro mapped
    exact ⟨(userMapped_page _).mp (mapped _ le_rfl ordered),
      (userMapped_page _).mp (mapped _ ordered le_rfl),
      fun page above below => mapped page above.le below.le⟩
  · rintro ⟨firstMapped, lastMapped, inner⟩ page above below
    rcases above.eq_or_lt with rfl | above
    · exact (userMapped_page _).mpr firstMapped
    · rcases below.eq_or_lt with rfl | below
      · exact (userMapped_page _).mpr lastMapped
      · exact inner page above below

theorem checkedPtr_eq_ok_iff {ptr result : Nat} :
    checkedPtr vm memory sizeOf ptr = .ok result ↔
      checkPtr vm memory ptr sizeOf = .ok () ∧ result = ptr := by
  rw [checkedPtr]
  cases checked : checkPtr vm memory ptr sizeOf with
  | error e => simp
  | ok u => simp [bind, Except.bind, pure, Except.pure, eq_comm]

theorem checkedSlice_eq_ok_iff (some_element : len ≠ 0) :
    checkedSlice vm memory sizeOf buf len = .ok slice ↔
      checkPtr vm memory buf (wrapMul len sizeOf) = .ok () ∧ slice = ⟨buf, len⟩ := by
  rw [checkedSlice, if_neg some_element]
  cases checked : checkPtr vm memory buf (wrapMul len sizeOf) with
  | error e => simp
  | ok u => simp [bind, Except.bind, pure, Except.pure, eq_comm]

theorem checkedPtr_rangeUserMapped {ptr result : Nat}
    (accepted : checkedPtr vm memory sizeOf ptr = .ok result) (some_byte : 0 < sizeOf) :
    RangeUserMapped vm memory result sizeOf ↔ OnlyUserPages vm memory result sizeOf := by
  obtain ⟨checked, rfl⟩ := checkedPtr_eq_ok_iff.mp accepted
  exact checkPtr_rangeUserMapped rfl checked some_byte

theorem checkedSlice_rangeUserMapped (accepted : checkedSlice vm memory sizeOf buf len = .ok slice)
    (some_byte : 0 < slice.len * sizeOf) :
    RangeUserMapped vm memory slice.start (slice.len * sizeOf) ↔
      OnlyUserPages vm memory slice.start (slice.len * sizeOf) := by
  by_cases empty : len = 0
  · rw [checkedSlice, if_pos empty] at accepted
    cases Except.ok.inj accepted
    simp at some_byte
  obtain ⟨checked, rfl⟩ := (checkedSlice_eq_ok_iff empty).mp accepted
  exact checkPtr_rangeUserMapped (Nat.mod_mod _ _) checked some_byte

end

/-- For every address space, pointer, length and element size: a range that one of the four
functions accepts is one of user pages just if it does not wrap around, the pages at its two ends
have `PTE_USER`, and the pages between them are mapped for user code. The length in bytes is the
product as a number; a kernel with overflow checks panics where the product or the end of the range
leaves `usize`, and accepts less. -/
theorem accepted_rangeUserMapped_iff (vm : VirtualMemoryMapper) (memory : PhysicalMemory)
    (sizeOf ptr len : Nat) :
    (∀ slice, sysArgToSlice vm memory sizeOf ptr len = .ok slice → 0 < slice.len * sizeOf →
        (RangeUserMapped vm memory slice.start (slice.len * sizeOf) ↔
          OnlyUserPages vm memory slice.start (slice.len * sizeOf))) ∧
      (∀ slice, sysArgToMutSlice vm memory sizeOf ptr len = .ok slice → 0 < slice.len * sizeOf →
        (RangeUserMapped vm memory slice.start (slice.len * sizeOf) ↔
          OnlyUserPages vm memory slice.start (slice.len * sizeOf))) ∧
      (∀ result, ptrAsRef vm memory sizeOf ptr = .ok result → 0 < sizeOf →
        (RangeUserMapped vm memory result sizeOf ↔ OnlyUserPages vm memory result sizeOf)) ∧
      (∀ result, ptrAsMut vm memory sizeOf ptr = .ok result → 0 < sizeOf →
        (RangeUserMapped vm memory result sizeOf ↔ OnlyUserPages vm memory result sizeOf)) :=
  ⟨fun _ => checkedSlice_rangeUserMapped, fun _ => checkedSlice_rangeUserMapped,
    fun _ => checkedPtr_rangeUserMapped, fun _ => checkedPtr_rangeUserMapped⟩

/-- What the page tables of a process say of its three pages of code and of its kernel stack. -/
def HasThreePages (s : ProcessSpace) : Prop :=
  s.ready = true ∧
    (s.vm.isAddressMapped s.physical.memory page4K = true ∧
      s.vm.isAddressMapped s.physical.memory (3 * page4K + 7) = true ∧
      UserEntries s.vm s.physical.memory page4K ∧
      UserEntries s.vm s.physical.memory (3 * page4K + 7) ∧
      UserMapped s.vm s.physical.memory (page4K * 2)) ∧
    s.vm.isAddressMapped s.physical.memory processKernelStackBase = true ∧
    s.vm.isAddressMapped s.physical.memory (processKernelStackBase + 7) = true ∧
    ¬ UserMapped s.vm s.physical.memory processKernelStackBase

instance : DecidablePred HasThreePages := fun _ => inferInstanceAs (Decidable (_ ∧ _))

theorem exists_hasThreePages : ∃ s, ProcessSpace.ReachableSpace s ∧ HasThreePages s :=
  Reachable.exists_of_run ProcessSpace.boot_bootSpace [.map ProcessSpace.kernelEntry,
    .cloneAsUser, .map { ProcessSpace.codeEntry with size := 3 * page4K },
    .addProcessSpecificMappings] (by decide +kernel)

/-- A slice of 1025 words over the three pages is accepted, and is one of user pages. -/
theorem accepted_threePages :
    ∃ s : ProcessSpace, ProcessSpace.ReachableSpace s ∧ s.ready = true ∧
      sysArgToSlice s.vm s.physical.memory 8 page4K 1025 = .ok ⟨page4K, 1025⟩ ∧
      RangeUserMapped s.vm s.physical.memory page4K (1025 * 8) := by
  obtain ⟨s, reached, ready, ⟨first, last, user, userLast, inner⟩, -⟩ := exists_hasThreePages
  have accepted : sysArgToSlice s.vm s.physical.memory 8 page4K 1025 = .ok ⟨page4K, 1025⟩ :=
    (checkedSlice_eq_ok_iff (by decide)).mpr ⟨(checkPtr_eq_ok_iff (by decide) rfl).mpr
      ⟨by decide, first, last⟩, rfl⟩
  refine ⟨s, reached, ready, accepted, ?_⟩
  refine ((accepted_rangeUserMapped_iff _ _ 8 page4K 1025).1 _ accepted (by decide)).mpr
    ⟨by decide, user, userLast, ?_⟩
  intro page above below
  obtain rfl : page = 2 := by
    simp only [page4K] at above below
    omega
  exact inner

/-- A process may pass a pointer to its kernel stack: `ptr_as_mut` accepts it, though the page is
not one of user code. -/
theorem kernel_stack_pointer_accepted :
    ∃ s : ProcessSpace, ProcessSpace.ReachableSpace s ∧ s.ready = true ∧
      ptrAsMut s.vm s.physical.memory 8 processKernelStackBase = .ok processKernelStackBase ∧
      ¬ RangeUserMapped s.vm s.physical.memory processKernelStackBase 8 := by
  obtain ⟨s, reached, ready, -, first, last, notUser⟩ := exists_hasThreePages
  refine ⟨s, reached, ready, ?_, fun mapped => notUser (mapped.2 0 (by decide))⟩
  exact checkedPtr_eq_ok_iff.mpr ⟨(checkPtr_eq_ok_iff (by decide) rfl).mpr
    ⟨by decide, first, last⟩, rfl⟩

end Emerald.Process
