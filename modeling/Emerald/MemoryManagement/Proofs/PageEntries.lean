
import Emerald.MemoryManagement.VirtualMemoryMapper

/-!
# The bits of page table entries

Adding and removing the flags of a caller changes neither where an entry leads nor whether it is
present, and the address of a table survives being stored in an entry.
-/

namespace Emerald.MemoryManagement
variable {address page : Nat}

variable (entry : BitVec 64)

/-- `entry & PTE_WRITABLE != 0`. -/
def isWritable : Bool := entry &&& pteWritable ≠ 0#64

/-- `entry & PTE_USER != 0`. -/
def isUserPage : Bool := entry &&& pteUser ≠ 0#64

theorem and_twoPow_ne_zero (k : Nat) (small : k < 64) :
    (entry &&& BitVec.twoPow 64 k ≠ 0#64) ↔ entry.getLsbD k = true := by
  rw [BitVec.and_twoPow]
  split
  · rename_i set
    simp only [set, iff_true]
    intro zero
    have := congrArg (fun x : BitVec 64 => x.getLsbD k) zero
    simp [small] at this
  · rename_i clear
    simp [clear]

theorem isPresent_eq : isPresent entry = entry.getLsbD 0 := by
  rw [Bool.eq_iff_iff, ← and_twoPow_ne_zero entry 0 (by omega), isPresent, decide_eq_true_eq,
    show ptePresent = BitVec.twoPow 64 0 by decide]

theorem isWritable_eq : isWritable entry = entry.getLsbD 1 := by
  rw [Bool.eq_iff_iff, ← and_twoPow_ne_zero entry 1 (by omega), isWritable, decide_eq_true_eq,
    show pteWritable = BitVec.twoPow 64 1 by decide]

theorem isUserPage_eq : isUserPage entry = entry.getLsbD 2 := by
  rw [Bool.eq_iff_iff, ← and_twoPow_ne_zero entry 2 (by omega), isUserPage, decide_eq_true_eq,
    show pteUser = BitVec.twoPow 64 2 by decide]

namespace PageFlags

theorem bits_getLsbD (flags : PageFlags) :
    flags.bits.getLsbD 0 = false ∧ flags.bits.getLsbD 1 = flags.writable ∧
      flags.bits.getLsbD 2 = flags.user := by
  obtain ⟨w, u, t, c⟩ := flags
  revert w u t c
  decide

theorem bits_and_addrMask (flags : PageFlags) : flags.bits &&& addrMask = 0#64 := by
  obtain ⟨w, u, t, c⟩ := flags
  revert w u t c
  decide

theorem bits_and_pteHugePage (flags : PageFlags) : flags.bits &&& pteHugePage = 0#64 := by
  obtain ⟨w, u, t, c⟩ := flags
  revert w u t c
  decide

end PageFlags

section
variable (entry : BitVec 64) (flags : PageFlags)

@[simp] theorem isPresent_or_bits : isPresent (entry ||| flags.bits) = isPresent entry := by
  simp only [isPresent_eq, BitVec.getLsbD_or, flags.bits_getLsbD.1, Bool.or_false]

@[simp] theorem isPresent_and_not_bits :
    isPresent (entry &&& ~~~flags.bits) = isPresent entry := by
  simp only [isPresent_eq, BitVec.getLsbD_and, BitVec.getLsbD_not, flags.bits_getLsbD.1,
    Bool.not_false, Bool.and_true, Nat.zero_lt_succ, decide_true]

@[simp] theorem isPresent_or_ptePresent : isPresent (entry ||| ptePresent) = true := by
  rw [isPresent_eq, BitVec.getLsbD_or, show ptePresent.getLsbD 0 = true by decide, Bool.or_true]

@[simp] theorem isWritable_or_bits :
    isWritable (entry ||| flags.bits) = (isWritable entry || flags.writable) := by
  simp only [isWritable_eq, BitVec.getLsbD_or, flags.bits_getLsbD.2.1]

@[simp] theorem isUserPage_or_bits :
    isUserPage (entry ||| flags.bits) = (isUserPage entry || flags.user) := by
  simp only [isUserPage_eq, BitVec.getLsbD_or, flags.bits_getLsbD.2.2]

@[simp] theorem isWritable_and_not_bits :
    isWritable (entry &&& ~~~flags.bits) = (isWritable entry && !flags.writable) := by
  simp only [isWritable_eq, BitVec.getLsbD_and, BitVec.getLsbD_not, flags.bits_getLsbD.2.1,
    show 1 < 64 by decide, decide_true, Bool.true_and]

@[simp] theorem isUserPage_and_not_bits :
    isUserPage (entry &&& ~~~flags.bits) = (isUserPage entry && !flags.user) := by
  simp only [isUserPage_eq, BitVec.getLsbD_and, BitVec.getLsbD_not, flags.bits_getLsbD.2.2,
    show 2 < 64 by decide, decide_true, Bool.true_and]

/-- Bits outside the mask do not change what is under it. -/
theorem or_and_of_and_eq_zero {a b mask : BitVec 64} (outside : b &&& mask = 0#64) :
    (a ||| b) &&& mask = a &&& mask := by
  apply BitVec.eq_of_getLsbD_eq
  intro i small
  have := congrArg (fun x : BitVec 64 => x.getLsbD i) outside
  simp only [BitVec.getLsbD_and] at this
  simp only [BitVec.getLsbD_and, BitVec.getLsbD_or]
  cases a.getLsbD i <;> simp_all

theorem and_not_and_of_and_eq_zero {a b mask : BitVec 64} (outside : b &&& mask = 0#64) :
    (a &&& ~~~b) &&& mask = a &&& mask := by
  apply BitVec.eq_of_getLsbD_eq
  intro i small
  have := congrArg (fun x : BitVec 64 => x.getLsbD i) outside
  simp only [BitVec.getLsbD_and] at this
  cases a.getLsbD i <;> cases known : b.getLsbD i <;> simp_all

@[simp] theorem tableOf_or_bits : tableOf (entry ||| flags.bits) = tableOf entry := by
  unfold tableOf
  rw [or_and_of_and_eq_zero flags.bits_and_addrMask]

@[simp] theorem tableOf_and_not_bits : tableOf (entry &&& ~~~flags.bits) = tableOf entry := by
  unfold tableOf
  rw [and_not_and_of_and_eq_zero flags.bits_and_addrMask]

@[simp] theorem tableOf_or_ptePresent : tableOf (entry ||| ptePresent) = tableOf entry := by
  unfold tableOf
  rw [or_and_of_and_eq_zero (by decide)]

end

/-- The address of a page of the kernel's mapping of physical memory. -/
def IsFrame (address : Nat) : Prop := page4K ∣ address ∧ address < kernelMappedSize

theorem and_addrMask_of_dvd (aligned : page4K ∣ address) (small : address < 2 ^ 32) :
    address &&& 0xFFFFF000 = address := by
  obtain ⟨k, rfl⟩ := aligned
  have shifted : page4K * k = k <<< 12 := by
    rw [Nat.shiftLeft_eq, mul_comm]
    rfl
  have bound : k < 2 ^ 20 := by
    omega
  rw [shifted, show (0xFFFFF000 : Nat) = (2 ^ 20 - 1) <<< 12 by decide,
    ← Nat.shiftLeft_and_distrib, Nat.and_two_pow_sub_one_eq_mod, Nat.mod_eq_of_lt bound]

theorem IsFrame.tableOf_ofNat (frame : IsFrame address) :
    tableOf (BitVec.ofNat 64 address &&& addrMask) = address := by
  have small : address < 2 ^ 32 := by
    have := frame.2
    simp only [kernelMappedSize] at this
    omega
  unfold tableOf
  rw [BitVec.and_assoc, BitVec.toNat_and, BitVec.toNat_ofNat, Nat.mod_eq_of_lt (by omega)]
  exact and_addrMask_of_dvd frame.1 small

/-- The entry `clone_kernel_mem` makes for the copied table. -/
theorem IsFrame.kernelEntry (frame : IsFrame address) :
    isPresent (BitVec.ofNat 64 address ||| ptePresent ||| pteWritable) = true ∧
      tableOf (BitVec.ofNat 64 address ||| ptePresent ||| pteWritable) = address := by
  constructor
  · rw [isPresent_eq]
    have present : ptePresent.getLsbD 0 = true := by decide
    simp only [BitVec.getLsbD_or, present, Bool.or_true, Bool.true_or]
  · have masked := frame.tableOf_ofNat
    unfold tableOf at masked ⊢
    rw [BitVec.and_assoc] at masked
    rw [or_and_of_and_eq_zero (by decide), or_and_of_and_eq_zero (by decide)]
    exact masked

theorem isFrame_of_freeable {a : PhysicalPageAllocator}
    (wf : PhysicalPageAllocator.Wf a) (freeable : PhysicalPageAllocator.Freeable a page) :
    kernelBase ≤ page ∧ IsFrame (virtual2physical page) := by
  have divides := (isAligned_page4K page).mp freeable.aligned
  have above := le_trans wf.lower freeable.above
  have below := lt_of_lt_of_le freeable.below wf.upper
  simp only [kernelEnd, kernelBase, kernelMappedSize, page4K] at divides above below
  refine ⟨?_, ?_, ?_⟩
  · simp only [kernelBase]
    omega
  · simp only [virtual2physical, kernelBase, page4K]
    omega
  · simp only [virtual2physical, kernelBase, kernelMappedSize]
    omega

theorem physical2virtual_virtual2physical (above : kernelBase ≤ page) :
    physical2virtual (virtual2physical page) = page := by
  unfold physical2virtual virtual2physical
  omega

theorem virtual2physical_physical2virtual (address : Nat) :
    virtual2physical (physical2virtual address) = address := by
  unfold physical2virtual virtual2physical
  omega

namespace VirtualMemoryMapper

theorem leafEntry_present (address : Nat) (flags : PageFlags) :
    isPresent (leafEntry address flags) = true := by
  simp [leafEntry]

theorem leafEntry_flags (address : Nat) (flags : PageFlags) :
    isWritable (leafEntry address flags) = flags.writable ∧
      isUserPage (leafEntry address flags) = flags.user := by
  have low : (BitVec.ofNat 64 address &&& addrMask).getLsbD 1 = false ∧
      (BitVec.ofNat 64 address &&& addrMask).getLsbD 2 = false := by
    have clear : addrMask.getLsbD 1 = false ∧ addrMask.getLsbD 2 = false := by decide
    simp only [BitVec.getLsbD_and, clear.1, clear.2, Bool.and_false, and_self]
  have present : ptePresent.getLsbD 1 = false ∧ ptePresent.getLsbD 2 = false := by decide
  constructor
  · simp only [leafEntry, isWritable_eq, BitVec.getLsbD_or, low.1, flags.bits_getLsbD.2.1,
      present.1, Bool.false_or, Bool.or_false]
  · simp only [leafEntry, isUserPage_eq, BitVec.getLsbD_or, low.2, flags.bits_getLsbD.2.2,
      present.2, Bool.false_or, Bool.or_false]

theorem tableOf_leafEntry (frame : IsFrame address) (flags : PageFlags) :
    tableOf (leafEntry address flags) = address := by
  simp [leafEntry, frame.tableOf_ofNat]

theorem leafEntry_not_huge (address : Nat) (flags : PageFlags) :
    leafEntry address flags &&& pteHugePage = 0#64 := by
  unfold leafEntry
  rw [or_and_of_and_eq_zero (by decide), or_and_of_and_eq_zero flags.bits_and_pteHugePage,
    BitVec.and_assoc, show addrMask &&& pteHugePage = 0#64 by decide, BitVec.and_zero]

end VirtualMemoryMapper

end Emerald.MemoryManagement
