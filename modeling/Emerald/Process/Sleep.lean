
import Emerald.Process.ExitAndWait

/-!
# The system call for sleep

`sys_sleep` of `kernel/src/process/syscalls/mod.rs`. The kernel may be built with overflow checks or
without them, and `overflowChecks` is which. `none` is a panic.
-/

namespace Emerald.Machine

open Process

/-- `SYS_SLEEP`. -/
def sysSleepNumber : Nat := 17

/-- `sys_sleep`. -/
def sysSleep (overflowChecks : Bool) (rcx rdx : BitVec 64) (state : ProcessContext × Machine) :
    Option (SyscallResult × ProcessContext × Machine) :=
  let time : ClockTime := { seconds := rcx.toNat, nanoseconds := rdx.toNat }
  if nanosPerSec ≤ time.nanoseconds then
    some (.error (toArgErr1 .invalidNanoseconds), state)
  else if overflowChecks && state.2.time.addOverflows time then none
  else do
    let (frame, m) ← sleepCurrentProcess time { state.1 with rax := 0#64 } state.2
    some (.ok 0#64, frame, m)

/-- The interrupt in which the current process calls `sys_sleep`. -/
def sleepCall (overflowChecks : Bool) (rcx rdx : BitVec 64) (frame : ProcessContext)
    (m : Machine) : Option Machine :=
  m.interrupt (handleSyscall sysSleepNumber (sysSleep overflowChecks rcx rdx) frame)

end Emerald.Machine
