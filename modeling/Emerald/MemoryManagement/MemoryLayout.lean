
import Emerald.Misc.Outcome

/-!
# Memory layout

The constants and the alignment helpers of
`kernel/src/memory_management/memory_layout.rs`. Addresses and sizes are natural
numbers below `2 ^ 64`; a sum that the source computes in `u64` and that can leave
this range is taken with `wrapAdd`.
-/

namespace Emerald.MemoryManagement

/-- `u64` and `usize` addition. -/
def wrapAdd (a b : Nat) : Nat := (a + b) % 2 ^ 64

/-- `u64` and `usize` subtraction. -/
def wrapSub (a b : Nat) : Nat := (a + 2 ^ 64 - b) % 2 ^ 64

def page4K : Nat := 0x1000

def kernelBase : Nat := 0xFFFFFFFF80000000
def extendedOffset : Nat := 0x100000
def kernelLink : Nat := kernelBase + extendedOffset
def kernelMappedSize : Nat := 0x8000000
def kernelEnd : Nat := kernelBase + kernelMappedSize

def kernelHeapBase : Nat := kernelEnd
def kernelHeapSize : Nat := 0x1000000

def intrStackSize : Nat := page4K * 32
def intrStackEmptySize : Nat := page4K
def intrStackEntrySize : Nat := intrStackSize + intrStackEmptySize
def intrStackBase : Nat := kernelHeapBase + kernelHeapSize
def intrStackCount : Nat := 7
def intrStackTotalSize : Nat := intrStackEntrySize * intrStackCount

def kernelExtraMemoryBase : Nat := intrStackBase + intrStackTotalSize
/-- The last page is left out "to avoid overflow stuff". -/
def kernelLastPossibleAddr : Nat := 0xFFFFFFFFFFFFF000
def kernelExtraMemorySize : Nat := kernelLastPossibleAddr - kernelExtraMemoryBase

variable (addr alignment : Nat)

/-- `is_aligned`: the low bits selected by `alignment - 1` are clear. -/
def isAligned : Bool := addr &&& (alignment - 1) == 0

/-- `align_down` for a power-of-two alignment, where `x & !(a - 1)` is the largest
multiple of `a` that is at most `x`. -/
def alignDown : Nat := addr - addr % alignment

/-- `align_up` for a power-of-two alignment. -/
def alignUp : Nat := alignDown (addr + alignment - 1) alignment

/-- `align_range` to pages: the first page, the size of the pages the range touches and the offset
of the range in the first one. -/
def alignRange (addr size : Nat) : Option (Nat × Nat × Nat) :=
  let addrEnd := wrapAdd addr size
  let startAligned := alignDown addr page4K
  let endAligned := alignDown (wrapAdd addrEnd (page4K - 1)) page4K
  let size := wrapSub endAligned startAligned
  if 0 < size ∧ isAligned size page4K then some (startAligned, size, addr - startAligned)
  else none

/-- `physical2virtual`. -/
def physical2virtual (addr : Nat) : Nat := addr + kernelBase

/-- `virtual2physical`. -/
def virtual2physical (addr : Nat) : Nat := addr - kernelBase

theorem isAligned_two_pow (addr k : Nat) : isAligned addr (2 ^ k) = true ↔ 2 ^ k ∣ addr := by
  unfold isAligned
  rw [Nat.and_two_pow_sub_one_eq_mod, beq_iff_eq, Nat.dvd_iff_mod_eq_zero]

theorem isAligned_page4K (addr : Nat) : isAligned addr page4K = true ↔ page4K ∣ addr :=
  isAligned_two_pow addr 12

theorem dvd_alignUp (x a : Nat) : a ∣ alignUp x a := Nat.dvd_sub_mod _

theorem le_alignUp (x : Nat) {a : Nat} (pos : 0 < a) : x ≤ alignUp x a := by
  have := Nat.mod_lt (x + a - 1) pos
  unfold alignUp alignDown
  omega

theorem alignUp_of_dvd {x a : Nat} (pos : 0 < a) (aligned : a ∣ x) : alignUp x a = x := by
  obtain ⟨q, rfl⟩ := aligned
  have rest : (a * q + a - 1) % a = a - 1 := by
    rw [Nat.add_sub_assoc pos, Nat.mul_add_mod, Nat.mod_eq_of_lt (by omega)]
  unfold alignUp alignDown
  omega

theorem alignDown_le (x a : Nat) : alignDown x a ≤ x := Nat.sub_le ..

theorem dvd_alignDown (x a : Nat) : a ∣ alignDown x a := Nat.dvd_sub_mod _

/-- A multiple that is not above is at most the last one. -/
theorem le_alignDown {x a m : Nat} (dvd : a ∣ m) (above : m ≤ x) : m ≤ alignDown x a := by
  obtain ⟨q, rfl⟩ := dvd
  unfold alignDown
  rw [← Nat.div_mul_self_eq_mod_sub_self, mul_comm]
  rcases Nat.eq_zero_or_pos a with rfl | pos
  · simp
  · exact Nat.mul_le_mul_right a ((Nat.le_div_iff_mul_le pos).mpr (mul_comm a q ▸ above))

/-- The next multiple is at most any multiple that is not below. -/
theorem alignUp_le {x a m : Nat} (pos : 0 < a) (dvd : a ∣ m) (below : x ≤ m) :
    alignUp x a ≤ m := by
  rw [← alignUp_of_dvd pos dvd]
  unfold alignUp alignDown
  rw [← Nat.div_mul_self_eq_mod_sub_self, ← Nat.div_mul_self_eq_mod_sub_self]
  exact Nat.mul_le_mul_right _ (Nat.div_le_div_right (by omega))

end Emerald.MemoryManagement
