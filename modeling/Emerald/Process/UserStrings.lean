
import Emerald.Misc.Bytes
import Emerald.Process.Syscalls

/-!
# Strings and arrays from user space

`sys_arg_to_str`, `sys_arg_to_str_array` and `sys_arg_to_file_mappings_array` of
`kernel/src/process/syscalls/mod.rs`. The bytes that the kernel reads at the addresses of the
process are given beside its page tables. `none` is a read beyond the last address.
-/

namespace Emerald.Process

open MemoryManagement (PhysicalMemory VirtualMemoryMapper)

/-- The address space of the process that calls. -/
structure UserSpace where
  vm : VirtualMemoryMapper
  tables : PhysicalMemory
  byte : Nat → UInt8

/-- A pointer or another `u64` in memory. -/
def wordAt (byte : Nat → UInt8) (address : Nat) : Nat := fromLE (readBytes byte address 8)

/-- `CStr::from_ptr`: the bytes up to the NUL, if it is one of the next `room`. -/
def cStr (byte : Nat → UInt8) : Nat → Nat → Option (List UInt8)
  | 0, _ => none
  | room + 1, ptr =>
    if byte ptr = 0 then some [] else (cStr byte room (ptr + 1)).map (byte ptr :: ·)

/-- The bytes of a string. -/
def utf8Bytes (s : String) : List UInt8 := s.toUTF8.data.toList

variable (user : UserSpace)

/-- `sys_arg_to_str`. -/
def sysArgToStr (arg : Nat) : Option (Except SyscallArgError String) :=
  match checkPtr user.vm user.tables arg 1 with
  | .error err => some (.error err)
  | .ok () =>
    (cStr user.byte (2 ^ 64 - arg) arg).map fun bytes =>
      match String.fromUTF8? ⟨bytes.toArray⟩ with
      | some string => .ok string
      | none => .error .notValidUtf8

/-- The loop of `sys_arg_to_str_array`, over at most `room` pointers. An empty string ends it like
the null pointer. -/
def strArrayFrom (user : UserSpace) : Nat → Nat → Option (Except SyscallArgError (List String))
  | 0, _ => none
  | room + 1, arrayPtr =>
    let ptr := wordAt user.byte arrayPtr
    if ptr = 0 then some (.ok [])
    else
      match sysArgToStr user ptr with
      | none => none
      | some (.error err) => some (.error err)
      | some (.ok string) =>
        if string.isEmpty then some (.ok [])
        else (strArrayFrom user room (arrayPtr + 8)).map (Except.map (string :: ·))

/-- `sys_arg_to_str_array`. -/
def sysArgToStrArray (arrayPtr : Nat) : Option (Except SyscallArgError (List String)) :=
  match ptrAsRef user.vm user.tables 8 arrayPtr with
  | .error err => some (.error err)
  | .ok arrayPtr => strArrayFrom user ((2 ^ 64 - arrayPtr) / 8) arrayPtr

/-- `SpawnFileMapping`. -/
structure SpawnFileMapping where
  srcFd : Nat
  dstFd : Nat
  deriving DecidableEq

/-- `size_of::<SpawnFileMapping>()`. -/
def sizeOfSpawnFileMapping : Nat := 16

def mappingAt (byte : Nat → UInt8) (address : Nat) : SpawnFileMapping :=
  ⟨wordAt byte address, wordAt byte (address + 8)⟩

/-- The inner loop of `sys_arg_to_file_mappings_array` finds the descriptors of the mapping in an
earlier one. -/
def isDuplicate (earlier : List SpawnFileMapping) (mapping : SpawnFileMapping) : Bool :=
  earlier.any fun other => mapping.srcFd == other.srcFd || mapping.dstFd == other.dstFd

/-- Its outer loop, with the mappings it has been through. -/
def hasDuplicates : List SpawnFileMapping → List SpawnFileMapping → Bool
  | _, [] => false
  | earlier, mapping :: mappings =>
    isDuplicate earlier mapping || hasDuplicates (earlier ++ [mapping]) mappings

/-- `sys_arg_to_file_mappings_array`. -/
def sysArgToFileMappingsArray (arrayPtr arraySize : Nat) :
    Except SyscallArgError (List SpawnFileMapping) :=
  match sysArgToSlice user.vm user.tables sizeOfSpawnFileMapping arrayPtr arraySize with
  | .error err => .error err
  | .ok slice =>
    let mappings := (List.range slice.len).map fun i =>
      mappingAt user.byte (slice.start + sizeOfSpawnFileMapping * i)
    if hasDuplicates [] mappings then .error .duplicateFileMappings else .ok mappings

end Emerald.Process
