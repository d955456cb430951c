
import Emerald.Process.Proofs.MachineSteps

/-!
# What a step does

Every step of the system before a shutdown, with all it does to the scheduler and to the process on
the processor. The results about whole runs go through these cases.
-/

namespace Emerald.Machine

variable {m m' a : Machine} {pick : Option SchedulerProcess × List SchedulerProcess}
variable {kernel frame : ProcessContext}

/-- The pids an action gives to the scheduler. -/
def pushedBy (m : Machine) : Action → List Nat
  | .push _ _ => [m.nextProcessId]
  | _ => []

/-- The pids whose processes an action ends. -/
def exitedBy (m : Machine) : Action → List Nat
  | .exit _ _ => [m.cpu.processId]
  | _ => []

/-- The pids an action takes from the heap. -/
def takenBy : Action → List Nat
  | .schedule (some top, _) _ => [top.process.id]
  | _ => []

/-- The next pid to be given after an action. -/
def nextAfter (m : Machine) : Action → Nat
  | .push _ _ | .dropPid => m.nextProcessId + 1
  | _ => m.nextProcessId

/-- What the clock reads after an action. -/
def timeAfter (m : Machine) : Action → ClockTime
  | .tick time => time
  | _ => m.time

/-- An action that neither starts, ends nor runs a process. -/
structure Quiet (m : Machine) (a : Action) : Prop where
  pushed : m.pushedBy a = []
  exited : m.exitedBy a = []
  taken : takenBy a = []

/-- What an iteration of the loop does: it halts with an empty heap, or runs the process taken. -/
inductive Pass (m m' : Machine) : Option SchedulerProcess × List SchedulerProcess → Prop
  | halt (rest : List SchedulerProcess) (free : m.cpu.context = none)
      (prepared : prepare false m.time m.scheduler.data = some m'.scheduler.data)
      (idle : m'.scheduler.data.scheduledProcesses = [])
      (run : Cpu.SameRun m.cpu m'.cpu) : Pass m m' (none, rest)
  | run (s : Scheduler) (top : SchedulerProcess) (rest : List SchedulerProcess)
      (free : m.cpu.context = none)
      (prepared : prepare false m.time m.scheduler.data = some s)
      (legal : (some top, rest) ∈ picks s.scheduledProcesses)
      (data : m'.scheduler.data = runScheduler s top rest)
      (on : m'.cpu.context.isSome) (pid : m'.cpu.processId = top.process.id) :
      Pass m m' (some top, rest)

inductive Effect (m : Machine) : Action → Machine → Prop
  | same {a : Action} {m' : Machine} (quiet : m.Quiet a)
      (data : m'.scheduler.data = m.scheduler.data) (run : Cpu.SameRun m.cpu m'.cpu) :
      Effect m a m'
  | push (parentId : Nat) (context : ProcessContext) {m' : Machine}
      (data : m'.scheduler.data =
        m.scheduler.data.pushProcess false (newProcess m.nextProcessId parentId context))
      (run : Cpu.SameRun m.cpu m'.cpu) : Effect m (.push parentId context) m'
  | exit (exitCode : BitVec 32) (frame : ProcessContext) (p : SchedulerProcess) {m' : Machine}
      (current : m.Current p)
      (data : m'.scheduler.data = (m.scheduler.data.dropProc m.cpu.processId).pushExited
        ((p.saved frame).process.exit exitCode))
      (off : m'.cpu.context = none) : Effect m (.exit exitCode frame) m'
  | suspend {a : Action} (p : SchedulerProcess) (frame : ProcessContext) (state : ProcessState)
      {m' : Machine} (quiet : m.Quiet a) (current : m.Current p)
      (waits : state ≠ .scheduled ∧ state ≠ .running) (user : frame.ring = 3#64)
      (data : m'.scheduler.data = m.scheduler.data.putProc m.cpu.processId
        { p.saved frame with state := state })
      (off : m'.cpu.context = none) : Effect m a m'
  | yield (frame : ProcessContext) (p : SchedulerProcess) {m' : Machine} (current : m.Current p)
      (data : m'.scheduler.data =
        (m.scheduler.data.dropProc m.cpu.processId).rescheduleProcess false (p.saved frame))
      (off : m'.cpu.context = none) : Effect m (.yield frame) m'
  | takeExit (pid : Nat) (p : SchedulerProcess) {m' : Machine} (current : m.Current p)
      (data : m'.scheduler.data = m.scheduler.data.putProc m.cpu.processId
        { p with process := (p.process.getChildExit pid).2 })
      (run : Cpu.SameRun m.cpu m'.cpu) : Effect m (.takeChildExit pid) m'
  | priority (pid : Nat) (level : Option PriorityLevel) {m' : Machine}
      (changed : Reprioritised pid level m.scheduler.data m'.scheduler.data)
      (run : Cpu.SameRun m.cpu m'.cpu) : Effect m (.setPriority pid level) m'
  | schedule {pick : Option SchedulerProcess × List SchedulerProcess} (frame : ProcessContext)
      {m' : Machine} (pass : Pass m m' pick) : Effect m (.schedule pick frame) m'

theorem schedule_pass {turn : Turn} (running : m.shutdown = false)
    (turned : m.schedule pick frame = some (turn, m')) (stays : turn ≠ .leave) :
    Pass m m' pick ∧ SameClock m m' := by
  obtain ⟨top | top, left⟩ := pick
  · cases turn with
    | leave => exact absurd rfl stays
    | halt =>
      obtain ⟨s, prepared, clock, data, -, -, run, -⟩ :=
        scheduleTurn_none (schedule_halt_spec turned)
      have idle := picks_none prepared.legal
      have nothing : left = [] := by
        have legal := prepared.legal
        rw [idle] at legal
        simpa [picks] using legal
      have same : m'.scheduler.data = s := by
        rw [data, nothing, ← idle]
      have ready := prepared.prepared
      rw [running, ← same] at ready
      exact ⟨.halt left prepared.free ready (same ▸ idle) run, clock⟩
    | run =>
      obtain ⟨a, turned, -⟩ := schedule_run_spec turned
      obtain ⟨-, -, -, -, -, -, -, turn⟩ := scheduleTurn_none turned
      exact absurd rfl turn
  · cases turn with
    | leave => exact absurd rfl stays
    | halt =>
      obtain ⟨-, -, -, -, -, -, -, -, -, turn⟩ :=
        scheduleTurn_some running (schedule_halt_spec turned)
      simp at turn
    | run =>
      obtain ⟨a, turned, sameData, clock, -, on, pid, -⟩ := schedule_run_spec turned
      obtain ⟨s, prepared, -, clock', data, -, -, pid', -, -⟩ := scheduleTurn_some running turned
      have ready := prepared.prepared
      rw [running] at ready
      refine ⟨.run s top left prepared.free ready prepared.legal ?_ ?_ ?_, clock'.trans clock⟩
      · rw [sameData, data]
      · simp [on]
      · rw [pid, pid']

theorem step_pass (running : m.shutdown = false)
    (stepped : m.step (.schedule pick frame) = some m') : Pass m m' pick ∧ SameClock m m' := by
  simp only [step, bind_eq_some, Prod.exists] at stepped
  obtain ⟨turn, b, turned, rest⟩ := stepped
  split at rest
  · cases rest
  · rename_i stays
    cases rest
    exact schedule_pass running turned stays

/-- Leaving the process in an interrupt of the machine. -/
theorem Left.off
    (left : Left { m with cpu := m.cpu.enterInterrupt } a kernel) (frame : ProcessContext) :
    (a.cpu.returnFromInterrupt frame).context = none := left.context

theorem Left.nCli_eq (left : Left { m with cpu := m.cpu.enterInterrupt } a kernel) :
    a.cpu.nCli = m.cpu.nCli := left.balanced.nCli

/-- A step outside the loop of `schedule()` leaves the count of `push_cli` as it is and the lock of
the scheduler free, and unless it starts a shutdown it has one of the effects. -/
theorem step_outside {a : Action} (outside : ∀ pick frame, a ≠ .schedule pick frame)
    (stepped : m.step a = some m') :
    m'.cpu.nCli = m.cpu.nCli ∧ (m.scheduler.locked = false → m'.scheduler.locked = false) ∧
      (m.shutdown = false → a ≠ .stop → Effect m a m' ∧ m'.shutdown = false ∧
        m'.nextProcessId = m.nextAfter a ∧ m'.time = m.timeAfter a) := by
  cases a with
  | schedule pick frame => exact absurd rfl (outside pick frame)
  | exit exitCode frame =>
    simp only [step, Option.ite_none_right_eq_some] at stepped
    obtain ⟨frame', b, handled, rfl⟩ := interrupt_spec stepped.2
    obtain ⟨p, current, left, data⟩ := exitCurrentProcess_spec handled
    refine ⟨left.nCli_eq, fun _ => congrArg Mutex.locked data, fun running _ => ?_⟩
    exact ⟨.exit exitCode frame p current (congrArg Mutex.data data) (left.off frame'),
      left.clock.shutdown.trans running, left.clock.nextProcessId, left.clock.time⟩
  | sleep time frame =>
    simp only [step, Option.ite_none_right_eq_some] at stepped
    obtain ⟨frame', b, handled, rfl⟩ := interrupt_spec stepped.2
    simp only [sleepCurrentProcess, Option.ite_none_right_eq_some] at handled
    obtain ⟨p, current, left, data⟩ := suspendCurrentProcess_spec handled.2
    refine ⟨left.nCli_eq, fun _ => congrArg Mutex.locked data, fun running _ => ?_⟩
    exact ⟨.suspend p frame _ ⟨rfl, rfl, rfl⟩ current (by simp) stepped.1.1
      (congrArg Mutex.data data) (left.off frame'), left.clock.shutdown.trans running,
      left.clock.nextProcessId, left.clock.time⟩
  | yield frame =>
    simp only [step, Option.ite_none_right_eq_some] at stepped
    obtain ⟨frame', b, handled, rfl⟩ := interrupt_spec stepped.2
    obtain ⟨p, current, left, data⟩ := yieldCurrentIfAny_spec handled stepped.1.1 stepped.1.2
    refine ⟨left.nCli_eq, fun _ => congrArg Mutex.locked data, fun running _ => ?_⟩
    simp only [running] at data
    exact ⟨.yield frame p current (congrArg Mutex.data data) (left.off frame'),
      left.clock.shutdown.trans running, left.clock.nextProcessId, left.clock.time⟩
  | look pid =>
    obtain ⟨⟨found, b⟩, looked, rfl⟩ := Option.map_eq_some_iff.mp stepped
    obtain ⟨data, clock, balanced, run⟩ := isProcessRunning_spec looked
    refine ⟨balanced.nCli, fun _ => congrArg Mutex.locked data, fun running _ => ?_⟩
    have sameData : b.scheduler.data = m.scheduler.data := by rw [data]
    exact ⟨.same ⟨rfl, rfl, rfl⟩ sameData run, clock.shutdown.trans running,
      clock.nextProcessId, clock.time⟩
  | wait pid frame =>
    simp only [step, Option.ite_none_right_eq_some] at stepped
    obtain ⟨frame', b, handled, rfl⟩ := interrupt_spec stepped.2
    obtain ⟨p, current, left, data⟩ := suspendCurrentProcess_spec handled
    refine ⟨left.nCli_eq, fun _ => congrArg Mutex.locked data, fun running _ => ?_⟩
    exact ⟨.suspend p frame _ ⟨rfl, rfl, rfl⟩ current (by simp) stepped.1.1
      (congrArg Mutex.data data) (left.off frame'), left.clock.shutdown.trans running,
      left.clock.nextProcessId, left.clock.time⟩
  | takeChildExit pid =>
    obtain ⟨⟨exit, b⟩, taken, rfl⟩ := Option.map_eq_some_iff.mp stepped
    obtain ⟨p, current, clock, balanced, run, data⟩ := takeChildExit_spec taken
    refine ⟨balanced.nCli, fun _ => congrArg Mutex.locked data, fun running _ => ?_⟩
    exact ⟨.takeExit pid p current (congrArg Mutex.data data) run,
      clock.shutdown.trans running, clock.nextProcessId, clock.time⟩
  | setPriority pid level =>
    obtain ⟨⟨priority, b⟩, set, rfl⟩ := Option.map_eq_some_iff.mp stepped
    obtain ⟨s', changed, data, clock, balanced, run⟩ := locked_pure_spec _ set
    obtain rfl : b.scheduler.data = s' := congrArg Mutex.data data
    refine ⟨balanced.nCli, fun _ => congrArg Mutex.locked data, fun running _ => ?_⟩
    exact ⟨.priority pid level ⟨priority, changed⟩ run, clock.shutdown.trans running,
      clock.nextProcessId, clock.time⟩
  | push parentId context =>
    obtain ⟨⟨u, b⟩, spawned, rfl⟩ := Option.map_eq_some_iff.mp stepped
    obtain ⟨data, shutdown, time, next, balanced, run⟩ := spawn_spec spawned
    refine ⟨balanced.nCli, fun _ => congrArg Mutex.locked data, fun running _ => ?_⟩
    rw [running] at data
    exact ⟨.push parentId context (congrArg Mutex.data data) run, shutdown.trans running, next,
      time⟩
  | dropPid =>
    cases stepped
    exact ⟨rfl, id, fun running _ => ⟨.same ⟨rfl, rfl, rfl⟩ rfl (Cpu.SameRun.refl _), running,
      rfl, rfl⟩⟩
  | tick time =>
    simp only [step, Option.ite_none_right_eq_some, Option.some.injEq] at stepped
    obtain ⟨-, rfl⟩ := stepped
    exact ⟨rfl, id, fun running _ => ⟨.same ⟨rfl, rfl, rfl⟩ rfl (Cpu.SameRun.refl _), running,
      rfl, rfl⟩⟩
  | stop =>
    cases stepped
    exact ⟨rfl, id, fun _ going => absurd rfl going⟩

/-- Every step but the start of a shutdown has one of the effects. -/
theorem step_effect {a : Action} (running : m.shutdown = false) (going : a ≠ .stop)
    (stepped : m.step a = some m') :
    Effect m a m' ∧ m'.shutdown = false ∧ m'.nextProcessId = m.nextAfter a ∧
      m'.time = m.timeAfter a := by
  cases a with
  | schedule pick frame =>
    obtain ⟨pass, clock⟩ := step_pass running stepped
    exact ⟨.schedule frame pass, clock.shutdown.trans running, clock.nextProcessId, clock.time⟩
  | _ => exact (step_outside (by simp) stepped).2.2 running going

end Emerald.Machine
