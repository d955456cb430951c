
import Emerald.Process.Machine
import Emerald.Process.SyscallResults

/-!
# The system calls for exit codes and priorities

`sys_exit`, `sys_wait_pid` and `sys_priority` of `kernel/src/process/syscalls/mod.rs`, and
`handle_syscall`, which puts their result in `rax`, with `PriorityLevel` of
`kernel_user_link/src/process.rs`. The registers with the arguments are given beside the frame.
`none` is a panic.
-/

namespace Emerald

/-- `PriorityLevel::from_u64`. -/
def PriorityLevel.fromU64 : Nat → Option PriorityLevel
  | 1 => some veryLow
  | 2 => some low
  | 3 => some normal
  | 4 => some high
  | 5 => some veryHigh
  | _ => none

namespace Machine

open Process

/-- `SYS_EXIT`. -/
def sysExitNumber : Nat := 5

/-- `sys_arg!(0, .. => i32)` of the first argument. -/
def exitCodeArg (rcx : BitVec 64) : BitVec 32 := rcx.setWidth 32

/-- `sys_exit`. -/
def sysExit (rcx : BitVec 64) (state : ProcessContext × Machine) :
    Option (SyscallResult × ProcessContext × Machine) := do
  let (frame, m) ← exitCurrentProcess (exitCodeArg rcx) state.1 state.2
  some (.ok ((exitCodeArg rcx).signExtend 64), frame, m)

/-- `handle_syscall`. -/
def handleSyscall (syscallNumber : Nat)
    (call : ProcessContext × Machine → Option (SyscallResult × ProcessContext × Machine))
    (frame : ProcessContext) (m : Machine) : Option (ProcessContext × Machine) := do
  let (rax, frame, m) ← syscallHandlerWrapper syscallNumber call (frame, m)
  yieldCurrentIfAny { frame with rax := rax } m

/-- The interrupt in which the current process calls `sys_exit`. -/
def exitCall (rcx : BitVec 64) (frame : ProcessContext) (m : Machine) : Option Machine :=
  m.interrupt (handleSyscall sysExitNumber (sysExit rcx) frame)

/-! ## Calls with a pid, stage by stage

The gate of the system calls leaves the interrupts enabled, and the timer may take the processor
from a process within a call. The calls with a pid are therefore made of stages: each is one stretch
with the interrupts disabled, and between two of them other processes may run. -/

/-- The second argument of `sys_priority`: zero only asks for the priority. -/
def priorityArg (rdx : BitVec 64) : Option (Option PriorityLevel) :=
  if rdx = 0#64 then some none else (PriorityLevel.fromU64 rdx.toNat).map some

/-- What `sys_priority` and `sys_wait_pid` return. -/
inductive PidResult where
  | priority (level : PriorityLevel)
  | exitCode (code : BitVec 32)
  | invalidLevel
  | stillRunning
  | notFound
  deriving DecidableEq

def PidResult.toResult : PidResult → SyscallResult
  | .priority level => .ok (BitVec.ofNat 64 level.toNat)
  | .exitCode code => .ok (code.signExtend 64)
  | .invalidLevel => .error (toArgErr1 .generalInvalid)
  | .stillRunning => .error .processStillRunning
  | .notFound => .error .pidNotFound

inductive PidStage where
  /-- `with_process`, at the call of `sys_priority`. -/
  | withProcess (pid : Nat) (level : Option PriorityLevel)
  /-- `with_current_process`, at the call of `sys_wait_pid`. -/
  | takeChildExit (pid : Nat) (block : Bool)
  /-- `is_process_running`, for `sys_wait_pid` or for `wait_for_pid`. -/
  | look (pid : Nat) (block : Bool)
  /-- `wait_for_pid`, once the process was found. -/
  | wait (pid : Nat)
  /-- The result goes to `rax`, and the caller yields. -/
  | finish (result : PidResult)
  deriving DecidableEq

namespace PidStage

/-- The first stage of `sys_priority`. -/
def priorityStart (rcx rdx : BitVec 64) : PidStage :=
  match priorityArg rdx with
  | none => .finish .invalidLevel
  | some level => .withProcess rcx.toNat level

/-- The first stage of `sys_wait_pid`. -/
def waitPidStart (rcx rdx : BitVec 64) : PidStage := .takeChildExit rcx.toNat (rdx ≠ 0#64)

variable (frame : ProcessContext)

/-- One stage, and the next one unless the call is over. -/
def run : PidStage → Machine → Option (Option PidStage × Machine)
  | .withProcess pid level, m => do
    let (priority, m) ← Machine.withProcess pid (givePriority level) m
    some (some (.finish (.priority priority)), m)
  | .takeChildExit pid block, m => do
    let (processExit, m) ← Machine.takeChildExit pid m
    match processExit with
    | some exitCode => some (some (.finish (.exitCode exitCode)), m)
    | none => some (some (.look pid block), m)
  | .look pid block, m => do
    let (running, m) ← isProcessRunning pid m
    if running then some (some (if block then .wait pid else .finish .stillRunning), m)
    else some (some (.finish .notFound), m)
  | .wait pid, m => do
    -- the result goes to `rax` of the kernel, which has no process left to yield
    let (kernel, m) ← suspendCurrentProcess (.waitingForPid pid) frame m
    some (none, { m with cpu := m.cpu.returnFromInterrupt kernel })
  | .finish result, m => do
    let rax ← syscallResultToU64 result.toResult
    let (kernel, m) ← yieldCurrentIfAny { frame with rax := rax } m
    some (none, { m with cpu := m.cpu.returnFromInterrupt kernel })

/-- How many stages are left at most. -/
def turns : PidStage → Nat
  | .withProcess _ _ | .look _ _ => 2
  | .takeChildExit _ _ => 3
  | .wait _ | .finish _ => 1

/-- The stages one after the other, with no other process in between. -/
def runAlone : Nat → PidStage → Machine → Option Machine
  | 0, _, _ => none
  | turns + 1, stage, m => do
    let (rest, m) ← stage.run frame m
    match rest with
    | some rest => runAlone turns rest m
    | none => some m

end PidStage

/-- The current process calls `sys_wait_pid`, and no interrupt falls into the call. -/
def waitPidCall (rcx rdx : BitVec 64) (frame : ProcessContext) (m : Machine) : Option Machine :=
  PidStage.runAlone frame 3 (.waitPidStart rcx rdx) { m with cpu := m.cpu.enterInterrupt }

end Machine

end Emerald
