
import Mathlib

/-!
# Results of system calls

`libraries/kernel_user_link/src/syscalls.rs`: the errors of system calls and of their arguments,
and the encoding of a result in `rax`. `none` is a panic.
-/

namespace Emerald.Process

/-- `SyscallArgError`. -/
inductive SyscallArgError where
  | generalInvalid
  | invalidUserPointer
  | notValidUtf8
  | invalidHeapIncrement
  | duplicateFileMappings
  | invalidNanoseconds
  deriving DecidableEq

/-- The discriminant. -/
def SyscallArgError.toU8 : SyscallArgError → BitVec 8
  | generalInvalid => 1
  | invalidUserPointer => 2
  | notValidUtf8 => 3
  | invalidHeapIncrement => 4
  | duplicateFileMappings => 5
  | invalidNanoseconds => 6

/-- `try_from`: no error for 0, and `none` for a byte that is no discriminant. -/
def SyscallArgError.tryFrom (value : BitVec 8) : Option (Option SyscallArgError) :=
  match value.toNat with
  | 0 => some none
  | 1 => some (some generalInvalid)
  | 2 => some (some invalidUserPointer)
  | 3 => some (some notValidUtf8)
  | 4 => some (some invalidHeapIncrement)
  | 5 => some (some duplicateFileMappings)
  | 6 => some (some invalidNanoseconds)
  | _ => none

/-- `SyscallError`. -/
inductive SyscallError where
  | syscallNotFound
  | invalidError
  | couldNotOpenFile
  | invalidFileIndex
  | couldNotWriteToFile
  | couldNotReadFromFile
  | couldNotLoadElf
  | couldNotAllocateProcess
  | heapRangesExceeded
  | endOfFile
  | fileNotFound
  | pidNotFound
  | processStillRunning
  | isNotDirectory
  | isDirectory
  | bufferTooSmall
  | graphicsNotAvailable
  | graphicsAlreadyTaken
  | graphicsNotOwned
  | invalidGraphicsBuffer
  | invalidOffset
  | alreadyExists
  | operationNotSupported
  | invalidArgument (arg1 arg2 arg3 arg4 arg5 arg6 arg7 : Option SyscallArgError)
  deriving DecidableEq

/-- `to_arg_err!(0, err)`. -/
def toArgErr0 (err : SyscallArgError) : SyscallError :=
  .invalidArgument (some err) none none none none none none

/-- `to_arg_err!(1, err)`. -/
def toArgErr1 (err : SyscallArgError) : SyscallError :=
  .invalidArgument none (some err) none none none none none

/-- `to_arg_err!(2, err)`. -/
def toArgErr2 (err : SyscallArgError) : SyscallError :=
  .invalidArgument none none (some err) none none none none

/-- `SyscallResult`. -/
abbrev SyscallResult := Except SyscallError (BitVec 64)

/-- `NUM_SYSCALLS`. -/
def numSyscalls : Nat := 22

/-- The most significant bit, which marks an error. -/
def errorBit : BitVec 64 := 1#64 <<< 63

/-- The byte of one argument in an error. -/
def argByte (arg : Option SyscallArgError) : BitVec 64 :=
  match arg with
  | some e => e.toU8.setWidth 64
  | none => 0#64

/-- `create_syscall_error`. -/
def createSyscallError (arg1 arg2 arg3 arg4 arg5 arg6 arg7 : Option SyscallArgError) :
    BitVec 64 :=
  argByte arg1 ||| argByte arg2 <<< 8 ||| argByte arg3 <<< 16 ||| argByte arg4 <<< 24 |||
    argByte arg5 <<< 32 ||| argByte arg6 <<< 40 ||| argByte arg7 <<< 48 ||| errorBit

/-- The error part of `syscall_result_to_u64`. -/
def SyscallError.toU64 : SyscallError → Option (BitVec 64)
  | .syscallNotFound => some (-1#64)
  | .invalidArgument arg1 arg2 arg3 arg4 arg5 arg6 arg7 =>
    some (createSyscallError arg1 arg2 arg3 arg4 arg5 arg6 arg7)
  | .couldNotOpenFile => some (2#64 <<< 56)
  | .invalidFileIndex => some (3#64 <<< 56)
  | .couldNotWriteToFile => some (4#64 <<< 56)
  | .couldNotReadFromFile => some (5#64 <<< 56)
  | .couldNotLoadElf => some (6#64 <<< 56)
  | .couldNotAllocateProcess => some (7#64 <<< 56)
  | .heapRangesExceeded => some (8#64 <<< 56)
  | .endOfFile => some (9#64 <<< 56)
  | .fileNotFound => some (10#64 <<< 56)
  | .pidNotFound => some (11#64 <<< 56)
  | .processStillRunning => some (12#64 <<< 56)
  | .isNotDirectory => some (13#64 <<< 56)
  | .isDirectory => some (14#64 <<< 56)
  | .bufferTooSmall => some (15#64 <<< 56)
  | .graphicsNotAvailable => some (16#64 <<< 56)
  | .graphicsAlreadyTaken => some (17#64 <<< 56)
  | .graphicsNotOwned => some (18#64 <<< 56)
  | .invalidGraphicsBuffer => some (19#64 <<< 56)
  | .invalidOffset => some (20#64 <<< 56)
  | .alreadyExists => some (21#64 <<< 56)
  | .operationNotSupported => some (22#64 <<< 56)
  | .invalidError => none

/-- `syscall_result_to_u64`: "syscall result should not have msb set". -/
def syscallResultToU64 : SyscallResult → Option (BitVec 64)
  | .ok value => if value &&& errorBit = 0#64 then some value else none
  | .error error => error.toU64.map (· ||| errorBit)

variable (value : BitVec 64)

/-- The error that is encoded below the error bit, where a byte of an argument that is no
discriminant is `InvalidError`. -/
def syscallErrorFromU64 : SyscallError :=
  let arg (i : Nat) := SyscallArgError.tryFrom ((value >>> (8 * i)).setWidth 8)
  match (value >>> 56).toNat with
  | 0 =>
    match arg 0, arg 1, arg 2, arg 3, arg 4, arg 5, arg 6 with
    | some arg1, some arg2, some arg3, some arg4, some arg5, some arg6, some arg7 =>
      .invalidArgument arg1 arg2 arg3 arg4 arg5 arg6 arg7
    | _, _, _, _, _, _, _ => .invalidError
  | 2 => .couldNotOpenFile
  | 3 => .invalidFileIndex
  | 4 => .couldNotWriteToFile
  | 5 => .couldNotReadFromFile
  | 6 => .couldNotLoadElf
  | 7 => .couldNotAllocateProcess
  | 8 => .heapRangesExceeded
  | 9 => .endOfFile
  | 10 => .fileNotFound
  | 11 => .pidNotFound
  | 12 => .processStillRunning
  | 13 => .isNotDirectory
  | 14 => .isDirectory
  | 15 => .bufferTooSmall
  | 16 => .graphicsNotAvailable
  | 17 => .graphicsAlreadyTaken
  | 18 => .graphicsNotOwned
  | 19 => .invalidGraphicsBuffer
  | 20 => .invalidOffset
  | 21 => .alreadyExists
  | 22 => .operationNotSupported
  | _ => .invalidError

/-- `syscall_result_from_u64`. -/
def syscallResultFromU64 : SyscallResult :=
  if value &&& errorBit = 0#64 then .ok value
  else .error (syscallErrorFromU64 (value &&& ~~~errorBit))

/-- `syscall_handler_wrapper`, over the call with its state. -/
def syscallHandlerWrapper {σ : Type} (syscallNumber : Nat) (f : σ → Option (SyscallResult × σ))
    (s : σ) : Option (BitVec 64 × σ) := do
  if numSyscalls ≤ syscallNumber then
    let bits ← syscallResultToU64 (.error .syscallNotFound)
    some (bits, s)
  else
    let (result, s) ← f s
    let bits ← syscallResultToU64 result
    some (bits, s)

/-! ## Values and errors apart -/

theorem and_errorBit_eq_zero_iff : value &&& errorBit = 0#64 ↔ value.msb = false := by
  rw [BitVec.msb_eq_getLsbD_last]
  constructor
  · intro zero
    have bit := congrArg (fun v : BitVec 64 => v.getLsbD 63) zero
    simpa [errorBit] using bit
  · intro clear
    apply BitVec.eq_of_getLsbD_eq
    intro i below
    by_cases last : i = 63
    · subst last
      simpa [errorBit] using clear
    · have apart : i < 63 := by omega
      rw [BitVec.getLsbD_and, errorBit, BitVec.getLsbD_shiftLeft]
      simp only [apart, decide_true, Bool.not_true, Bool.and_false, Bool.false_and,
        BitVec.getLsbD_zero]

/-- A value whose most significant bit is clear is encoded as itself; the others panic. -/
theorem syscallResultToU64_ok :
    syscallResultToU64 (.ok value) = if value.msb then none else some value := by
  unfold syscallResultToU64
  simp only [and_errorBit_eq_zero_iff]
  cases value.msb <;> rfl

theorem syscallResultFromU64_eq_ok_iff (bits value : BitVec 64) :
    syscallResultFromU64 bits = .ok value ↔ bits.msb = false ∧ value = bits := by
  unfold syscallResultFromU64
  simp only [and_errorBit_eq_zero_iff]
  split
  · rename_i clear
    simp only [Except.ok.injEq, clear, true_and]
    exact eq_comm
  · rename_i set
    simp [set]

/-- The encoding of an error has the most significant bit set. -/
theorem msb_of_syscallResultToU64_error {error : SyscallError} {bits : BitVec 64}
    (encoded : syscallResultToU64 (.error error) = some bits) : bits.msb = true := by
  obtain ⟨upper, -, rfl⟩ := Option.map_eq_some_iff.mp encoded
  simp [errorBit, BitVec.msb_eq_getLsbD_last]

end Emerald.Process
