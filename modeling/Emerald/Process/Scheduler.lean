
import Emerald.Cpu
import Emerald.Devices.Clock
import Emerald.Misc.SortedMap
import Emerald.MemoryManagement.MemoryLayout

/-!
# The scheduler

`kernel/src/process/scheduler.rs`, `impl Scheduler`, with the parts of `Process`
(`process/mod.rs`) it reads. The heap of scheduled processes is the list of its elements in no
particular order; `BinaryHeap::pop` takes some element of greatest counter. `none` is a panic.
-/

namespace Emerald

open Emerald.MemoryManagement (wrapAdd)

inductive PriorityLevel where
  | veryLow | low | normal | high | veryHigh
  deriving DecidableEq

def PriorityLevel.toNat : PriorityLevel → Nat
  | veryLow => 1
  | low => 2
  | normal => 3
  | high => 4
  | veryHigh => 5

/-- The fields of `Process` the scheduler uses. -/
structure Process where
  id : Nat
  parentId : Nat
  context : ProcessContext
  priority : PriorityLevel
  exitCode : BitVec 32
  childrenExits : SortedMap (BitVec 32)
  deriving DecidableEq

namespace Process

/-- `Process::exit`. -/
def exit (process : Process) (exitCode : BitVec 32) : Process :=
  { process with exitCode := exitCode }

/-- `Process::add_child_exit`: panics if the pid is recorded already. -/
def addChildExit (process : Process) (pid : Nat) (exitCode : BitVec 32) : Option Process :=
  if process.childrenExits.get? pid = none then
    some { process with childrenExits := process.childrenExits.insert pid exitCode }
  else none

/-- The exit of a child is recorded with `add_child_exit`, the one of any other process is not. -/
def recordExited (process exited : Process) : Option Process :=
  if exited.parentId = process.id then process.addChildExit exited.id exited.exitCode
  else some process

/-- `Process::get_child_exit`. -/
def getChildExit (process : Process) (pid : Nat) : Option (BitVec 32) × Process :=
  (process.childrenExits.get? pid,
    { process with childrenExits := process.childrenExits.erase pid })

end Process

inductive ProcessState where
  | running
  | scheduled
  | waitingForPid (pid : Nat)
  | waitingForTime (time : ClockTime)
  deriving DecidableEq

structure SchedulerProcess where
  process : Process
  state : ProcessState
  priorityCounter : Nat
  deriving DecidableEq

structure Scheduler where
  scheduledProcesses : List SchedulerProcess
  runningWaitingProcs : SortedMap SchedulerProcess
  exitedProcesses : List Process
  maxPriority : Nat
  deriving DecidableEq

/-- `u64::MAX`. -/
def u64Max : Nat := 2 ^ 64 - 1

/-- `MIN_PRIORITY_VALUE`. -/
def minPriorityValue : Nat := 100

namespace Scheduler

/-- `Scheduler::new`. -/
def new : Scheduler := ⟨[], SortedMap.empty, [], u64Max⟩

variable (shutdown : Bool)

/-- `Scheduler::reschedule_process`; `shutdown` is the value of `SHUTDOWN`. -/
def rescheduleProcess (process : SchedulerProcess) (s : Scheduler) : Scheduler :=
  if shutdown then
    { s with exitedProcesses := s.exitedProcesses ++ [process.process.exit 0xFF#32] }
  else
    { s with scheduledProcesses :=
        { process with priorityCounter := s.maxPriority, state := .scheduled } ::
          s.scheduledProcesses }

/-- `Scheduler::push_process`. -/
def pushProcess (process : Process) (s : Scheduler) : Scheduler :=
  s.rescheduleProcess shutdown
    { process := process, state := .scheduled, priorityCounter := s.maxPriority }

/-- `Scheduler::reset_scheduled_processes_counters`. -/
def resetScheduledProcessesCounters (s : Scheduler) : Scheduler :=
  { s with scheduledProcesses :=
      s.scheduledProcesses.map (fun p => { p with priorityCounter := u64Max }) }

/-! ## Waking -/

/-- The closure given to `retain_mut`, for one process that is running or waiting for a pid and one
that has exited: what the first one becomes. -/
def meetExited (process : SchedulerProcess) (exited : Process) : Option SchedulerProcess := do
  let inner ← process.process.recordExited exited
  if process.state = .waitingForPid exited.id then
    -- "must be from user only"
    if inner.context.ring = 3#64 then
      let context := { inner.context with rax := exited.exitCode.signExtend 64 }
      some { process with process := { inner with context := context } }
    else none
  else some { process with process := inner }

/-- `exited_processes.retain_mut(..)`: whether the process is to be woken, what it becomes, and who
stays exited. -/
def visitExited (process : SchedulerProcess) :
    List Process → Option (Bool × SchedulerProcess × List Process)
  | [] => some (false, process, [])
  | exited :: rest => do
    let met ← meetExited process exited
    let (remove, met, kept) ← visitExited met rest
    some (process.state = .waitingForPid exited.id ∨ remove, met,
      if exited.parentId = process.process.id then kept else exited :: kept)

/-- The closure given to `extract_if` over `running_waiting_procs`. -/
def visitWaiting (timeNow : ClockTime) (_pid : Nat) (process : SchedulerProcess)
    (exited : List Process) : Option (Bool × SchedulerProcess × List Process) :=
  match process.state with
  | .waitingForPid _ | .running => visitExited process exited
  | .waitingForTime t => some (t ≤ timeNow, process, exited)
  | .scheduled => none

/-- The exit of one process recorded in its parent, if that is scheduled. -/
def recordExit (exited : Process) : List SchedulerProcess → Option (List SchedulerProcess)
  | [] => some []
  | p :: rest => do
    let inner ← p.process.recordExited exited
    let rest ← recordExit exited rest
    some ({ p with process := inner } :: rest)

/-- The loop over `exited_processes.drain(..)`. -/
def drainExited : List Process → List SchedulerProcess → Option (List SchedulerProcess)
  | [], scheduled => some scheduled
  | exited :: rest, scheduled => do
    let scheduled ← recordExit exited scheduled
    drainExited rest scheduled

/-- The loop that reschedules what was extracted. -/
def rescheduleAll (shutdown : Bool) : List (Nat × SchedulerProcess) → Scheduler → Scheduler
  | [], s => s
  | (_, process) :: rest, s => rescheduleAll shutdown rest (s.rescheduleProcess shutdown process)

/-- `Scheduler::try_wake_waiting_processes`, where the clock reads `timeNow`. -/
def tryWakeWaitingProcesses (timeNow : ClockTime) (s : Scheduler) : Option Scheduler := do
  let (exited, kept, extracted) ←
    s.runningWaitingProcs.extractIf (visitWaiting timeNow) s.exitedProcesses
  let s := rescheduleAll shutdown extracted
    { s with runningWaitingProcs := kept, exitedProcesses := exited }
  let scheduled ← drainExited s.exitedProcesses s.scheduledProcesses
  some { s with scheduledProcesses := scheduled, exitedProcesses := [] }

/-- `Scheduler::exit_idle_processes`: only running processes are left. -/
def exitIdleProcesses (s : Scheduler) : Scheduler :=
  { s with
    scheduledProcesses := []
    runningWaitingProcs :=
      ⟨s.runningWaitingProcs.entries.filter (fun entry => entry.2.state = .running),
        s.runningWaitingProcs.sorted.filter _⟩ }

/-! ## The heap of scheduled processes -/

/-- The ways to take one element out of a list. -/
def removals {α : Type} : List α → List (α × List α)
  | [] => []
  | x :: rest => (x, rest) :: (removals rest).map (fun taken => (taken.1, x :: taken.2))

/-- What `BinaryHeap::pop` may return and leave: some element no other one exceeds. -/
def pops (heap : List SchedulerProcess) : List (SchedulerProcess × List SchedulerProcess) :=
  (removals heap).filter (fun taken =>
    taken.2.all (fun other => other.priorityCounter ≤ taken.1.priorityCounter))

/-- `scheduled_processes.peek()` has a counter below `MIN_PRIORITY_VALUE`: the heap is not empty
and so are all its counters. -/
def countersExhausted (s : Scheduler) : Bool :=
  s.scheduledProcesses ≠ [] ∧ s.scheduledProcesses.all (·.priorityCounter < minPriorityValue)

end Scheduler

end Emerald
