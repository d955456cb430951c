
import Emerald.Process.Scheduler
import Emerald.Misc.Reachable

/-!
# The scheduling loop and the calls of the running process

`kernel/src/process/scheduler.rs`, the functions over `SCHEDULER`, `SHUTDOWN` and the processor:
one iteration of `schedule()` up to the switch into a process or to `hlt`, and the functions a
system call or the timer runs on behalf of the current process. A frame is the `all_state` of the
interrupt: the registers the interrupted code resumes with.
-/

namespace Emerald

structure Machine where
  cpu : Cpu
  /-- `SCHEDULER`. -/
  scheduler : Mutex Scheduler
  /-- `SHUTDOWN`. -/
  shutdown : Bool
  /-- `clocks().time_since_startup()`. -/
  time : ClockTime
  /-- `PROCESS_ID_ALLOCATOR`. -/
  nextProcessId : Nat
  deriving DecidableEq

namespace Machine
variable {α : Type}

variable (m : Machine)

/-- A body that runs between `SCHEDULER.lock()` and the drop of the guard. -/
def locked (body : Cpu → Scheduler → Option (α × Cpu × Scheduler)) : Option (α × Machine) := do
  let (mutex, cpu) ← m.scheduler.lock m.cpu
  let (result, cpu, scheduler) ← body cpu mutex.data
  let (mutex, cpu) ← mutex.unlock scheduler cpu
  some (result, { m with scheduler := mutex, cpu := cpu })

/-- `with_current_process_and_state`. -/
def withCurrentProcessAndState
    (f : Cpu → SchedulerProcess → Option (α × Cpu × SchedulerProcess)) : Option (α × Machine) :=
  m.locked fun cpu s => do
    let process ← s.runningWaitingProcs.get? cpu.processId
    if process.state = .running then
      let (result, cpu', process) ← f cpu process
      some (result, cpu', { s with
        runningWaitingProcs := s.runningWaitingProcs.insert cpu.processId process })
    else none

/-- `take_current_process`. -/
def takeCurrentProcess : Option (SchedulerProcess × Machine) :=
  m.locked fun cpu s => do
    let process ← s.runningWaitingProcs.get? cpu.processId
    if process.state = .running then
      some (process, cpu, { s with
        runningWaitingProcs := s.runningWaitingProcs.erase cpu.processId })
    else none

def pushCli (m : Machine) : Option Machine := do
  let cpu ← m.cpu.pushCli
  some { m with cpu := cpu }

def popCli (m : Machine) : Option Machine := do
  let cpu ← m.cpu.popCli
  some { m with cpu := cpu }

/-- `swap_context` with the context of the processor, which is then taken: the frame becomes the
kernel's registers, and the registers of the process are what `context.take()` returns. -/
def leaveProcess (cpu : Cpu) : Option (ProcessContext × Cpu) := do
  let kernel ← cpu.context
  some (kernel, { cpu with context := none })

/-- `exit_current_process`: the frame to resume with, and the machine. -/
def exitCurrentProcess (exitCode : BitVec 32) (frame : ProcessContext) (m : Machine) :
    Option (ProcessContext × Machine) :=
  if m.cpu.context.isSome then do
    let m ← m.pushCli
    let (process, m) ← m.takeCurrentProcess
    let (kernel, cpu) ← leaveProcess m.cpu
    let inner := { process.process with context := frame }.exit exitCode
    let ((), m) ← { m with cpu := cpu }.locked fun cpu s =>
      some ((), cpu, { s with exitedProcesses := s.exitedProcesses ++ [inner] })
    let m ← m.popCli
    some (kernel, m)
  else none

/-- The current process goes to the given waiting state: the common body of
`sleep_current_process` and `wait_for_pid`. -/
def suspendCurrentProcess (state : ProcessState) (frame : ProcessContext) (m : Machine) :
    Option (ProcessContext × Machine) := do
  let (kernel, m) ← m.withCurrentProcessAndState fun cpu p => do
    let cpu ← cpu.pushCli
    let (kernel, cpu) ← leaveProcess cpu
    some (kernel, cpu, { p with
      state := state
      process := { p.process with context := frame } })
  let m ← m.popCli
  some (kernel, m)

/-- `sleep_current_process`. -/
def sleepCurrentProcess (time : ClockTime) (frame : ProcessContext) (m : Machine) :
    Option (ProcessContext × Machine) :=
  if m.cpu.context.isSome then
    m.suspendCurrentProcess (.waitingForTime (m.time.add time)) frame
  else none

variable (frame : ProcessContext)

/-- `yield_current_if_any`. -/
def yieldCurrentIfAny (m : Machine) : Option (ProcessContext × Machine) :=
  if m.cpu.context.isNone ∨ m.cpu.scheduling then some (frame, m)
  else do
    let m ← m.pushCli
    let (process, m) ← m.takeCurrentProcess
    let (kernel, cpu) ← leaveProcess m.cpu
    let process := { process with process := { process.process with context := frame } }
    let ((), m) ← { m with cpu := cpu }.locked fun cpu s =>
      some ((), cpu, s.rescheduleProcess m.shutdown process)
    let m ← m.popCli
    some (kernel, m)

/-- `is_process_running`. -/
def isProcessRunning (pid : Nat) (m : Machine) : Option (Bool × Machine) :=
  m.locked fun cpu s =>
    some ((s.runningWaitingProcs.keys ++ s.scheduledProcesses.map (·.process.id)).any (· == pid),
      cpu, s)

/-- `with_current_process`, at the call of `sys_wait_pid`. -/
def takeChildExit (pid : Nat) (m : Machine) : Option (Option (BitVec 32) × Machine) :=
  m.withCurrentProcessAndState fun cpu p =>
    some ((p.process.getChildExit pid).1, cpu, { p with process := (p.process.getChildExit pid).2 })

/-- The first process with the pid, changed. -/
def changeFirst (pid : Nat) (f : Process → Process) :
    List SchedulerProcess → Option (List SchedulerProcess)
  | [] => none
  | p :: rest =>
    if p.process.id == pid then some ({ p with process := f p.process } :: rest)
    else (changeFirst pid f rest).map (p :: ·)

/-- The process with the pid, among the running and waiting ones or else the first scheduled one,
with what `f` does to it. -/
def changeProcess (pid : Nat) (f : Process → α × Process) (s : Scheduler) :
    Option (α × Scheduler) :=
  match s.runningWaitingProcs.get? pid with
  | some p =>
    let p' := { p with process := (f p.process).2 }
    some ((f p.process).1, { s with
      runningWaitingProcs := s.runningWaitingProcs.insert pid p' })
  | none => do
    let p ← s.scheduledProcesses.find? (·.process.id == pid)
    let scheduled ← changeFirst pid (fun process => (f process).2) s.scheduledProcesses
    some ((f p.process).1, { s with scheduledProcesses := scheduled })

/-- `with_process`: "process not found" is a panic. -/
def withProcess (pid : Nat) (f : Process → α × Process) (m : Machine) : Option (α × Machine) :=
  m.locked fun cpu s => (changeProcess pid f s).map fun changed => (changed.1, cpu, changed.2)

/-- What `sys_priority` does to the process: `set_priority` if there is a level, then
`get_priority`. -/
def givePriority (level : Option PriorityLevel) (process : Process) : PriorityLevel × Process :=
  let process := { process with priority := level.getD process.priority }
  (process.priority, process)

/-- `Process::allocate_process` and `push_process`. -/
def spawn (parentId : Nat) (context : ProcessContext) (m : Machine) : Option (Unit × Machine) :=
  { m with nextProcessId := m.nextProcessId + 1 }.locked fun cpu s =>
    some ((), cpu, s.pushProcess m.shutdown
      { id := m.nextProcessId, parentId := parentId, context := context, priority := .normal,
        exitCode := 0#32, childrenExits := SortedMap.empty })

/-! ## The scheduling loop -/

/-- Where an iteration of the loop goes: out of it, into a process, or to `hlt`. -/
inductive Turn where
  | leave | run | halt
  deriving DecidableEq

/-- What `scheduled_processes.pop()` may do. -/
def picks (heap : List SchedulerProcess) :
    List (Option SchedulerProcess × List SchedulerProcess) :=
  match heap with
  | [] => [(none, [])]
  | _ => (Scheduler.pops heap).map (fun taken => (some taken.1, taken.2))

variable (shutdown : Bool)

/-- The process taken from the heap becomes the one of the processor, unless the system
shuts down. -/
def runTop (top : SchedulerProcess) (cpu : Cpu) (s : Scheduler) : Option (Cpu × Scheduler) :=
  if top.state = .scheduled then
    if shutdown then some (cpu, s)
    else
      let decrement := 6 - top.process.priority.toNat
      if decrement ≤ top.priorityCounter then
        let counter := top.priorityCounter - decrement
        some ({ cpu with
            processId := top.process.id
            context := some top.process.context
            scheduling := true },
          { s with
            maxPriority := counter
            runningWaitingProcs := s.runningWaitingProcs.insert top.process.id
              { top with state := .running, priorityCounter := counter } })
      else none
  else none

/-- `if let Some(mut top) = top`: only this branch has the `pop_cli` that undoes the `push_cli`
before it. -/
def runPick (top : Option SchedulerProcess) (cpu : Cpu) (s : Scheduler) :
    Option (Cpu × Scheduler) :=
  match top with
  | some top => do
    let (cpu, s) ← runTop shutdown top cpu s
    let cpu ← cpu.popCli
    some (cpu, s)
  | none => some (cpu, s)

/-- `SCHEDULER` between the lock and `pop()`: shutdown, waking, resetting the counters. -/
def prepare (time : ClockTime) (s : Scheduler) : Option Scheduler := do
  let s := if shutdown then s.exitIdleProcesses else s
  let s ← s.tryWakeWaitingProcesses shutdown time
  some (if s.countersExhausted then s.resetScheduledProcessesCounters else s)

/-- The part of the loop's body under the lock, where `pop()` does `pick`. -/
def scheduleLocked (time : ClockTime)
    (pick : Option SchedulerProcess × List SchedulerProcess) (cpu : Cpu) (s : Scheduler) :
    Option (Bool × Cpu × Scheduler) := do
  let cpu ← cpu.pushCli
  let s ← prepare shutdown time s
  if pick ∈ picks s.scheduledProcesses then
    let s := { s with scheduledProcesses := pick.2 }
    let (cpu, s) ← runPick shutdown pick.1 cpu s
    let leave := shutdown ∧ s.scheduledProcesses = [] ∧ s.runningWaitingProcs.entries = [] ∧
      cpu.context = none
    some (leave, cpu, s)
  else none

/-- One iteration of the loop in `schedule()` until it leaves, switches or halts. -/
def scheduleTurn (pick : Option SchedulerProcess × List SchedulerProcess) (m : Machine) :
    Option (Turn × Machine) :=
  if m.cpu.context.isNone then do
    let (leave, m) ← m.locked (scheduleLocked m.shutdown m.time pick)
    some (if leave then .leave else if m.cpu.context.isSome then .run else .halt, m)
  else none

/-- `scheduler_interrupt_handler`, entered by `int 0xff` from the loop with the kernel's registers
as its frame: the frame to resume with, which is the one of the process. -/
def schedulerInterruptHandler (m : Machine) : Option (ProcessContext × Machine) :=
  if frame.ring = 0#64 ∧ m.cpu.scheduling ∧ m.cpu.interruptFlag = false then do
    let context ← m.cpu.context
    some (context, { m with cpu := { m.cpu with context := some frame, scheduling := false } })
  else none

/-! ## Runs -/

/-- An interrupt: its handler runs with interrupts disabled, and the flags of the frame it leaves
are loaded at its end. The gate of the system calls leaves the interrupts enabled, and for them this
is a call that no interrupt falls into. -/
def interrupt (handler : Machine → Option (ProcessContext × Machine)) (m : Machine) :
    Option Machine := do
  let (frame, m) ← handler { m with cpu := m.cpu.enterInterrupt }
  some { m with cpu := m.cpu.returnFromInterrupt frame }

/-- The kernel's registers at `int 0xff` hold the interrupt flag of the processor. -/
def kernelFrame : Prop :=
  frame.interruptsEnabled = m.cpu.interruptFlag

instance (m : Machine) (frame : ProcessContext) : Decidable (m.kernelFrame frame) :=
  inferInstanceAs (Decidable (_ = _))

inductive Action where
  /-- An iteration of the loop of `schedule()`, with the registers it has at `int 0xff`. -/
  | schedule (pick : Option SchedulerProcess × List SchedulerProcess) (frame : ProcessContext)
  /-- What calls and interrupts do on behalf of the running process, with its registers: it may
  yield within a call, between two sections under the lock, and `look` and `wait` are the two of
  `wait_for_pid`. -/
  | exit (exitCode : BitVec 32) (frame : ProcessContext)
  | sleep (time : ClockTime) (frame : ProcessContext)
  | yield (frame : ProcessContext)
  | look (pid : Nat)
  | wait (pid : Nat) (frame : ProcessContext)
  | takeChildExit (pid : Nat)
  | setPriority (pid : Nat) (level : Option PriorityLevel)
  | push (parentId : Nat) (context : ProcessContext)
  /-- A pid given to a process that is dropped before it is pushed. -/
  | dropPid
  /-- The clock moves on. -/
  | tick (time : ClockTime)
  | stop
  deriving DecidableEq

/-- One iteration of the loop, then the switch into the process it found. -/
def schedule (pick : Option SchedulerProcess × List SchedulerProcess) (frame : ProcessContext)
    (m : Machine) : Option (Turn × Machine) := do
  let (turn, m) ← m.scheduleTurn pick
  match turn with
  | .run =>
    if m.kernelFrame frame then do
      let m ← m.interrupt (schedulerInterruptHandler frame)
      some (.run, m)
    else none
  | turn => some (turn, m)

/-- `syscall_interrupt_handler` runs its calls only for a frame of user code, and with a
process on the processor. -/
def fromUser (m : Machine) : Prop :=
  frame.ring = 3#64 ∧ m.cpu.context.isSome ∧ m.cpu.scheduling = false

instance (frame : ProcessContext) (m : Machine) : Decidable (fromUser frame m) :=
  inferInstanceAs (Decidable (_ ∧ _))

def step : Action → Option Machine
  | .schedule pick frame => do
    let (turn, m) ← m.schedule pick frame
    if turn = .leave then none else some m
  | .exit exitCode frame =>
    if fromUser frame m then m.interrupt (exitCurrentProcess exitCode frame) else none
  | .sleep time frame =>
    if fromUser frame m then m.interrupt (sleepCurrentProcess time frame) else none
  | .yield frame =>
    if m.cpu.context.isSome ∧ m.cpu.scheduling = false then m.interrupt (yieldCurrentIfAny frame)
    else none
  | .look pid => (m.isProcessRunning pid).map Prod.snd
  | .wait pid frame =>
    if fromUser frame m then m.interrupt (suspendCurrentProcess (.waitingForPid pid) frame)
    else none
  | .takeChildExit pid => (m.takeChildExit pid).map Prod.snd
  | .setPriority pid level => (m.withProcess pid (givePriority level)).map Prod.snd
  | .push parentId context => (m.spawn parentId context).map Prod.snd
  | .dropPid => some { m with nextProcessId := m.nextProcessId + 1 }
  | .tick time => if m.time ≤ time then some { m with time := time } else none
  | .stop => some { m with shutdown := true }

/-! ## Boot -/

/-- Registers of user code: `context` as `allocate_process` sets it up, with interrupts enabled
and the user segments of the GDT. -/
def userContext : ProcessContext :=
  { rflags := 0x200#64, rip := 0#64, cs := 0x13#64, rsp := 0#64, ss := 0x23#64, rax := 0#64,
    others := [] }

/-- Registers of the kernel in `schedule()`. -/
def kernelContext : ProcessContext :=
  { rflags := 0x200#64, rip := 0#64, cs := 0x8#64, rsp := 0#64, ss := 0x18#64, rax := 0#64,
    others := [] }

/-- The machine before the first process is pushed, with interrupts enabled. -/
def boot : Machine :=
  { cpu := { oldInterruptEnable := false, nCli := 0, context := none, processId := 0,
             scheduling := false, interruptFlag := true }
    scheduler := Mutex.new Scheduler.new
    shutdown := false
    time := ⟨0, 0⟩
    nextProcessId := 0 }

end Machine

end Emerald
