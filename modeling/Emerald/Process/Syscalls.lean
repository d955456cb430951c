
import Emerald.MemoryManagement.VirtualMemoryMapper
import Emerald.Process.SyscallResults

/-!
# Arguments of system calls

The checks of `kernel/src/process/syscalls/mod.rs` on the pointers a process passes to the kernel.
They look at the page tables of the current process, given by its `vm` and the physical memory.
-/

namespace Emerald.Process

open MemoryManagement (PhysicalMemory VirtualMemoryMapper wrapAdd wrapSub)

/-- Multiplication of `usize` that wraps around. -/
def wrapMul (a b : Nat) : Nat := a * b % 2 ^ 64

/-- A slice or its mutable variant: the address of the first element and their number. -/
structure UserSlice where
  start : Nat
  len : Nat
  deriving DecidableEq

section
variable (vm : VirtualMemoryMapper) (memory : PhysicalMemory)

/-- `Process::is_user_address_mapped`. -/
def isUserAddressMapped (address : Nat) : Bool := vm.isAddressMapped memory address

/-- `check_ptr`: the first and the last byte are looked at. -/
def checkPtr (arg len : Nat) : Except SyscallArgError Unit :=
  if arg = 0 then .error .invalidUserPointer
  else if !(isUserAddressMapped vm memory arg &&
      isUserAddressMapped vm memory (wrapSub (wrapAdd arg len) 1)) then
    .error .invalidUserPointer
  else .ok ()

/-- `ptr_as_mut` and `ptr_as_ref` for a type of the given size. -/
def checkedPtr (sizeOf ptr : Nat) : Except SyscallArgError Nat := do
  checkPtr vm memory ptr sizeOf
  return ptr

/-- `ptr_as_mut`. -/
def ptrAsMut (sizeOf ptr : Nat) : Except SyscallArgError Nat := checkedPtr vm memory sizeOf ptr

/-- `ptr_as_ref`. -/
def ptrAsRef (sizeOf ptr : Nat) : Except SyscallArgError Nat := checkedPtr vm memory sizeOf ptr

/-- `sys_arg_to_slice` and `sys_arg_to_mut_slice` for elements of the given size. The empty slice
is one of the kernel's own, at an address of no account. -/
def checkedSlice (sizeOf buf len : Nat) : Except SyscallArgError UserSlice :=
  if len = 0 then .ok ⟨sizeOf, 0⟩
  else do
    checkPtr vm memory buf (wrapMul len sizeOf)
    return ⟨buf, len⟩

/-- `sys_arg_to_slice`. -/
def sysArgToSlice (sizeOf buf len : Nat) : Except SyscallArgError UserSlice :=
  checkedSlice vm memory sizeOf buf len

/-- `sys_arg_to_mut_slice`. -/
def sysArgToMutSlice (sizeOf buf len : Nat) : Except SyscallArgError UserSlice :=
  checkedSlice vm memory sizeOf buf len

end

end Emerald.Process
