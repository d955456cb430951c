
import Emerald.Process.SyscallResults

/-!
# Results of system calls through `rax`

What the kernel encodes with `syscall_result_to_u64` the caller decodes with
`syscall_result_from_u64`, both in `libraries/kernel_user_link/src/syscalls.rs`. The two tables
agree on every error but one: `SyscallNotFound` is encoded with all bits set, and the decoder has no
error for the number 127 that is left of them.
-/

namespace Emerald.Process

/-! ## The bytes of the arguments -/

variable (arg : Option SyscallArgError)

/-- The discriminant of the error of an argument, or 0. -/
def argDiscriminant : BitVec 8 :=
  (arg.map SyscallArgError.toU8).getD 0#8

theorem argByte_eq : argByte arg = (argDiscriminant arg).setWidth 64 := by
  cases arg <;> rfl

theorem tryFrom_argDiscriminant : SyscallArgError.tryFrom (argDiscriminant arg) = some arg := by
  cases arg with
  | none => rfl
  | some error => cases error <;> rfl

variable (bytes : Fin 7 → BitVec 8)

/-- Seven bytes in a word, the first one lowest, below the error bit. -/
def packed : BitVec 64 :=
  (bytes 0).setWidth 64 ||| (bytes 1).setWidth 64 <<< 8 ||| (bytes 2).setWidth 64 <<< 16 |||
    (bytes 3).setWidth 64 <<< 24 ||| (bytes 4).setWidth 64 <<< 32 |||
    (bytes 5).setWidth 64 <<< 40 ||| (bytes 6).setWidth 64 <<< 48 ||| errorBit

theorem createSyscallError_eq (args : Fin 7 → Option SyscallArgError) :
    createSyscallError (args 0) (args 1) (args 2) (args 3) (args 4) (args 5) (args 6) =
      packed fun i => argDiscriminant (args i) := by
  simp only [createSyscallError, packed, argByte_eq]

theorem packed_or_errorBit : packed bytes ||| errorBit = packed bytes := by
  rw [packed, BitVec.or_assoc, BitVec.or_self]

/-- Below the error bit nothing is changed when it is cleared. -/
theorem getLsbD_and_not_errorBit (value : BitVec 64) {i : Nat} (below : i < 63) :
    (value &&& ~~~errorBit).getLsbD i = value.getLsbD i := by
  have inside : i < 64 := by omega
  simp only [errorBit, BitVec.getLsbD_and, BitVec.getLsbD_not, BitVec.getLsbD_shiftLeft, below,
    inside, decide_true, Bool.not_true, Bool.and_false, Bool.false_and, Bool.not_false,
    Bool.and_true]

theorem getLsbD_packed (i : Fin 7) {j : Nat} (inByte : j < 8) :
    (packed bytes).getLsbD (8 * i + j) = (bytes i).getLsbD j := by
  -- a byte has no bits from 8 on, which leaves the one that is moved to this place
  unfold packed errorBit
  simp only [BitVec.getLsbD_or, BitVec.getLsbD_shiftLeft]
  fin_cases i <;> grind

/-- Each byte is found at its place. -/
theorem byte_packed (i : Fin 7) :
    ((packed bytes &&& ~~~errorBit) >>> (8 * (i : Nat))).setWidth 8 = bytes i := by
  apply BitVec.eq_of_getLsbD_eq
  intro j inByte
  have below : 8 * (i : Nat) + j < 63 := by omega
  rw [BitVec.getLsbD_setWidth, BitVec.getLsbD_ushiftRight, getLsbD_and_not_errorBit _ below,
    getLsbD_packed bytes i inByte]
  simp only [inByte, decide_true, Bool.true_and]

/-- Above the seven bytes there is only the error bit. -/
theorem top_packed : ((packed bytes &&& ~~~errorBit) >>> 56).toNat = 0 := by
  have zero : (packed bytes &&& ~~~errorBit) >>> 56 = 0#64 := by
    apply BitVec.eq_of_getLsbD_eq
    intro j inside
    unfold packed errorBit
    simp only [BitVec.getLsbD_ushiftRight, BitVec.getLsbD_and, BitVec.getLsbD_not,
      BitVec.getLsbD_or, BitVec.getLsbD_shiftLeft, BitVec.getLsbD_setWidth]
    grind
  rw [zero]
  rfl

/-! ## The two tables -/

/-- The results the kernel may give: a value below `2 ^ 63`, or an error other than
`InvalidError`, which is for the caller only. -/
def SyscallResult.Encodable : SyscallResult → Prop
  | .ok value => value.toNat < 2 ^ 63
  | .error error => error ≠ .invalidError

theorem decode_invalidArgument (args : Fin 7 → Option SyscallArgError) :
    syscallErrorFromU64 ((packed fun i => argDiscriminant (args i)) &&& ~~~errorBit) =
      .invalidArgument (args 0) (args 1) (args 2) (args 3) (args 4) (args 5) (args 6) := by
  have arg (i : Nat) (inside : i < 7) : SyscallArgError.tryFrom
      ((((packed fun i => argDiscriminant (args i)) &&& ~~~errorBit) >>> (8 * i)).setWidth 8) =
      some (args ⟨i, inside⟩) := by
    have byte := byte_packed (fun i => argDiscriminant (args i)) ⟨i, inside⟩
    rw [byte, tryFrom_argDiscriminant]
  unfold syscallErrorFromU64
  simp only [top_packed]
  rw [arg 0 (by decide), arg 1 (by decide), arg 2 (by decide), arg 3 (by decide),
    arg 4 (by decide), arg 5 (by decide), arg 6 (by decide)]
  rfl

/-- The number of an error that is encoded in the upper byte alone. -/
theorem syscallResultFromU64_error {bits : BitVec 64} (set : bits.msb = true) :
    syscallResultFromU64 bits = .error (syscallErrorFromU64 (bits &&& ~~~errorBit)) := by
  unfold syscallResultFromU64
  rw [if_neg]
  rw [and_errorBit_eq_zero_iff, set]
  exact Bool.noConfusion

/-- What becomes of an error. -/
theorem roundTrip_error (error : SyscallError) (given : error ≠ .invalidError) :
    (syscallResultToU64 (.error error)).map syscallResultFromU64 =
      some (.error (if error = .syscallNotFound then .invalidError else error)) := by
  cases error with
  | invalidError => exact absurd rfl given
  | invalidArgument arg1 arg2 arg3 arg4 arg5 arg6 arg7 =>
    let args : Fin 7 → Option SyscallArgError := ![arg1, arg2, arg3, arg4, arg5, arg6, arg7]
    have encoded : syscallResultToU64
        (.error (.invalidArgument arg1 arg2 arg3 arg4 arg5 arg6 arg7)) =
        some (packed fun i => argDiscriminant (args i)) := by
      show some (createSyscallError (args 0) (args 1) (args 2) (args 3) (args 4) (args 5) (args 6)
        ||| errorBit) = _
      rw [createSyscallError_eq, packed_or_errorBit]
    rw [encoded, Option.map_some,
      syscallResultFromU64_error (msb_of_syscallResultToU64_error encoded),
      decode_invalidArgument]
    rfl
  | _ => decide

/-- A result reaches the caller as it is, unless it says that there is no such system call. -/
theorem syscallResult_roundTrip_iff (result : SyscallResult) (encodable : result.Encodable) :
    (syscallResultToU64 result).map syscallResultFromU64 = some result ↔
      result ≠ .error .syscallNotFound := by
  cases result with
  | ok value =>
    have clear : value.msb = false := by
      rw [BitVec.msb_eq_decide, decide_eq_false_iff_not]
      exact not_le.mpr encodable
    have decoded := (syscallResultFromU64_eq_ok_iff value value).mpr ⟨clear, rfl⟩
    rw [syscallResultToU64_ok, clear]
    simp [decoded]
  | error error =>
    rw [roundTrip_error error encodable]
    by_cases notFound : error = .syscallNotFound
    · subst notFound
      simp
    · simp [notFound]

/-- The errors of two arguments reach the caller. -/
theorem roundTrip_two_arguments :
    (syscallResultToU64 (.error (.invalidArgument (some .invalidUserPointer) none none none none
      none (some .notValidUtf8)))).map syscallResultFromU64 =
    some (.error (.invalidArgument (some .invalidUserPointer) none none none none none
      (some .notValidUtf8))) :=
  (syscallResult_roundTrip_iff _ (by exact SyscallError.noConfusion)).mpr (by decide)

/-- A call with a number that is not in use: the caller is told `InvalidError`. -/
theorem unknown_number_not_decoded :
    (syscallHandlerWrapper numSyscalls (fun s : Unit => some (.ok 0#64, s)) ()).map
      (fun result => syscallResultFromU64 result.1) = some (.error .invalidError) ∧
    (syscallResultToU64 (.error .syscallNotFound)).map syscallResultFromU64 ≠
      some (.error .syscallNotFound) := by
  decide

end Emerald.Process
