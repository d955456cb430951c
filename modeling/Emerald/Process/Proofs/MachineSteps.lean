
import Emerald.Process.Machine

/-!
# What each call does to the machine

One lemma for each function of the scheduling loop and of the running process: which change it
makes to the data behind `SCHEDULER`, and that it leaves the nesting of `push_cli` as it was. Every
invariant of runs rests on these, not on the bodies of the functions.
-/

namespace Emerald
variable {m m' : Machine} {kernel frame frame' : ProcessContext} {pid : Nat} {s s' : Scheduler}
  {pick : Option SchedulerProcess × List SchedulerProcess}
variable {rest : List SchedulerProcess}

namespace Scheduler

/-- An entry of `running_waiting_procs` written. -/
def putProc (s : Scheduler) (key : Nat) (p : SchedulerProcess) : Scheduler :=
  { s with runningWaitingProcs := s.runningWaitingProcs.insert key p }

/-- An entry of `running_waiting_procs` removed. -/
def dropProc (s : Scheduler) (key : Nat) : Scheduler :=
  { s with runningWaitingProcs := s.runningWaitingProcs.erase key }

/-- A process added to `exited_processes`. -/
def pushExited (s : Scheduler) (process : Process) : Scheduler :=
  { s with exitedProcesses := s.exitedProcesses ++ [process] }

end Scheduler

/-- The registers of the process saved. -/
def SchedulerProcess.saved (p : SchedulerProcess) (frame : ProcessContext) : SchedulerProcess :=
  { p with process := { p.process with context := frame } }

namespace Machine
variable {turn : Turn}

variable {α : Type}
variable {result : α} {cpu cpu' : Cpu} {top p : SchedulerProcess} {time : ClockTime}

/-- What no call but the ones that say so changes. -/
structure SameClock (m m' : Machine) : Prop where
  shutdown : m'.shutdown = m.shutdown
  time : m'.time = m.time
  nextProcessId : m'.nextProcessId = m.nextProcessId

theorem SameClock.trans {a b c : Machine} (first : SameClock a b) (second : SameClock b c) :
    SameClock a c :=
  ⟨second.shutdown.trans first.shutdown, second.time.trans first.time,
    second.nextProcessId.trans first.nextProcessId⟩

theorem locked_spec {body : Cpu → Scheduler → Option (α × Cpu × Scheduler)}
    (done : m.locked body = some (result, m')) :
    ∃ cpu cpu' s', m.cpu.pushCli = some cpu ∧
      body cpu m.scheduler.data = some (result, cpu', s') ∧ cpu'.popCli = some m'.cpu ∧
      m.scheduler.locked = false ∧ m'.scheduler = ⟨false, s'⟩ ∧ SameClock m m' := by
  simp only [locked, bind_eq_some, Prod.exists] at done
  obtain ⟨mutex, cpu, taken, result', cpu', s', ran, mutex', cpu'', dropped, rfl, rfl⟩ := done
  obtain ⟨free, rfl, pushed⟩ := Mutex.lock_spec taken
  obtain ⟨rfl, popped⟩ := Mutex.unlock_spec dropped
  exact ⟨cpu, cpu', s', pushed, ran, popped, free, rfl, rfl, rfl, rfl⟩

/-- A body that leaves the processor alone. -/
theorem locked_pure_spec (body : Scheduler → Option (α × Scheduler))
    (done : m.locked (fun cpu s => (body s).map (fun out => (out.1, cpu, out.2))) =
      some (result, m')) :
    ∃ s', body m.scheduler.data = some (result, s') ∧ m'.scheduler = ⟨false, s'⟩ ∧
      SameClock m m' ∧ Cpu.Balanced m.cpu m'.cpu ∧ Cpu.SameRun m.cpu m'.cpu := by
  obtain ⟨cpu, cpu', s', pushed, ran, popped, -, data, clock⟩ := locked_spec done
  simp only [Option.map_eq_some_iff, Prod.mk.injEq, Prod.exists] at ran
  obtain ⟨result', s'', body, rfl, rfl, rfl⟩ := ran
  exact ⟨s'', body, data, clock, Cpu.push_pop pushed popped⟩

theorem pushCli_spec (pushed : m.pushCli = some m') :
    m.cpu.pushCli = some m'.cpu ∧ m'.scheduler = m.scheduler ∧ SameClock m m' := by
  simp only [pushCli, bind_eq_some, Option.some.injEq] at pushed
  obtain ⟨cpu, pushed, rfl⟩ := pushed
  exact ⟨pushed, rfl, rfl, rfl, rfl⟩

theorem popCli_spec (popped : m.popCli = some m') :
    m.cpu.popCli = some m'.cpu ∧ m'.scheduler = m.scheduler ∧ SameClock m m' := by
  simp only [popCli, bind_eq_some, Option.some.injEq] at popped
  obtain ⟨cpu, popped, rfl⟩ := popped
  exact ⟨popped, rfl, rfl, rfl, rfl⟩

theorem leaveProcess_spec (left : leaveProcess cpu = some (kernel, cpu')) :
    cpu.context = some kernel ∧ cpu' = { cpu with context := none } := by
  simp only [leaveProcess, bind_eq_some] at left
  obtain ⟨context, present, rfl, rfl⟩ := left
  exact ⟨present, rfl⟩

/-- The process the processor runs, as the scheduler has it. -/
def Current (m : Machine) (p : SchedulerProcess) : Prop :=
  m.scheduler.data.runningWaitingProcs.get? m.cpu.processId = some p ∧ p.state = .running

theorem takeCurrentProcess_spec (taken : m.takeCurrentProcess = some (p, m')) :
    m.Current p ∧ m'.scheduler = ⟨false, m.scheduler.data.dropProc m.cpu.processId⟩ ∧
      SameClock m m' ∧ Cpu.Balanced m.cpu m'.cpu ∧ Cpu.SameRun m.cpu m'.cpu := by
  obtain ⟨cpu, cpu', s', pushed, ran, popped, -, data, clock⟩ := locked_spec taken
  obtain ⟨-, -, run, -⟩ := Cpu.pushCli_spec pushed
  simp only [bind_eq_some, Option.ite_none_right_eq_some] at ran
  obtain ⟨process, found, running, rfl, rfl, rfl⟩ := ran
  rw [run.processId] at found data
  exact ⟨⟨found, running⟩, data, clock, Cpu.push_pop pushed popped⟩

/-- The process is off the processor, whose nesting of `push_cli` is as before. -/
structure Left (m m' : Machine) (kernel : ProcessContext) : Prop where
  clock : SameClock m m'
  balanced : Cpu.Balanced m.cpu m'.cpu
  kernel : m.cpu.context = some kernel
  context : m'.cpu.context = none
  processId : m'.cpu.processId = m.cpu.processId
  scheduling : m'.cpu.scheduling = m.cpu.scheduling

/-- `push_cli`, the current process taken, its registers saved, a change to the scheduler,
`pop_cli`: the shape of `exit_current_process` and `yield_current_if_any`. -/
theorem take_and_leave {a b c : Machine}
    (change : Scheduler → Scheduler) (pushed : m.pushCli = some a)
    (taken : a.takeCurrentProcess = some (p, b)) (left : leaveProcess b.cpu = some (kernel, cpu))
    (changed : { b with cpu := cpu }.locked (fun cpu s => some ((), cpu, change s)) = some ((), c))
    (popped : c.popCli = some m') :
    m.Current p ∧ Left m m' kernel ∧
      m'.scheduler = ⟨false, change (m.scheduler.data.dropProc m.cpu.processId)⟩ := by
  obtain ⟨pushedCpu, sameData, clock⟩ := pushCli_spec pushed
  obtain ⟨current, takenData, takenClock, takenBalanced, takenRun⟩ := takeCurrentProcess_spec taken
  obtain ⟨present, rfl⟩ := leaveProcess_spec left
  obtain ⟨s', same, changedData, changedClock, changedBalanced, changedRun⟩ :=
    locked_pure_spec (fun s => some ((), change s)) changed
  obtain ⟨poppedCpu, poppedData, poppedClock⟩ := popCli_spec popped
  have pushedRun := (Cpu.pushCli_spec pushedCpu).2.2.1
  have poppedRun := (Cpu.popCli_spec poppedCpu).2.2.1
  simp only [Option.some.injEq, Prod.mk.injEq, true_and] at same
  refine ⟨?_, ⟨?_, ?_, ?_, ?_, ?_, ?_⟩, ?_⟩
  · unfold Current at current ⊢
    rwa [sameData, pushedRun.processId] at current
  · exact clock.trans (takenClock.trans (SameClock.trans ⟨changedClock.1, changedClock.2,
      changedClock.3⟩ poppedClock))
  · refine Cpu.Balanced.of_push_pop pushedCpu (takenBalanced.trans ?_) poppedCpu
    exact ⟨changedBalanced.nCli, changedBalanced.interruptFlag, changedBalanced.saved⟩
  · rw [← present, takenRun.context, pushedRun.context]
  · rw [poppedRun.context, changedRun.context]
  · rw [poppedRun.processId, changedRun.processId, ← pushedRun.processId]
    exact takenRun.processId
  · rw [poppedRun.scheduling, changedRun.scheduling, ← pushedRun.scheduling]
    exact takenRun.scheduling
  · rw [poppedData, changedData, ← same]
    simp only [takenData, sameData, pushedRun.processId]

theorem exitCurrentProcess_spec {exitCode : BitVec 32}
    (done : exitCurrentProcess exitCode frame m = some (kernel, m')) :
    ∃ p, m.Current p ∧ Left m m' kernel ∧ m'.scheduler = ⟨false,
      (m.scheduler.data.dropProc m.cpu.processId).pushExited
        ((p.saved frame).process.exit exitCode)⟩ := by
  simp only [exitCurrentProcess, Option.ite_none_right_eq_some, bind_eq_some, Prod.exists] at done
  obtain ⟨-, a, pushed, p, b, taken, kernel', cpu, left, u, c, changed, d, popped, rfl, rfl⟩ := done
  obtain ⟨current, leave, data⟩ := take_and_leave (fun s => s.pushExited
    ((p.saved frame).process.exit exitCode)) pushed taken left changed popped
  exact ⟨p, current, leave, data⟩

theorem yieldCurrentIfAny_spec (done : yieldCurrentIfAny frame m = some (frame', m'))
    (context : m.cpu.context.isSome) (ready : m.cpu.scheduling = false) :
    ∃ p, m.Current p ∧ Left m m' frame' ∧ m'.scheduler = ⟨false,
      (m.scheduler.data.dropProc m.cpu.processId).rescheduleProcess m.shutdown
        (p.saved frame)⟩ := by
  have busy : ¬ (m.cpu.context.isNone ∨ m.cpu.scheduling = true) := by
    simp [ready, ← Option.isSome_iff_ne_none, context]
  simp only [yieldCurrentIfAny, busy, if_false, bind_eq_some, Prod.exists] at done
  obtain ⟨a, pushed, p, b, taken, kernel', cpu, left, u, c, changed, d, popped, rfl, rfl⟩ := done
  have clock : b.shutdown = m.shutdown :=
    (takeCurrentProcess_spec taken).2.2.1.shutdown.trans (pushCli_spec pushed).2.2.shutdown
  obtain ⟨current, leave, data⟩ := take_and_leave (fun s => s.rescheduleProcess b.shutdown
    (p.saved frame)) pushed taken left changed popped
  rw [clock] at data
  exact ⟨p, current, leave, data⟩

theorem withCurrentProcessAndState_spec
    {f : Cpu → SchedulerProcess → Option (α × Cpu × SchedulerProcess)}
    (done : m.withCurrentProcessAndState f = some (result, m')) :
    ∃ cpu cpu' p p', m.cpu.pushCli = some cpu ∧ m.Current p ∧ f cpu p = some (result, cpu', p') ∧
      cpu'.popCli = some m'.cpu ∧ SameClock m m' ∧
      m'.scheduler = ⟨false, m.scheduler.data.putProc m.cpu.processId p'⟩ := by
  obtain ⟨cpu, cpu', s', pushed, ran, popped, -, data, clock⟩ := locked_spec done
  have run := (Cpu.pushCli_spec pushed).2.2.1
  simp only [bind_eq_some, Option.ite_none_right_eq_some, Prod.exists, Option.some.injEq,
    Prod.mk.injEq] at ran
  obtain ⟨p, found, running, result', cpu'', p', called, rfl, rfl, rfl⟩ := ran
  rw [run.processId] at found data
  exact ⟨cpu, cpu'', p, p', pushed, ⟨found, running⟩, called, popped, clock, data⟩

theorem suspendCurrentProcess_spec {state : ProcessState}
    (done : suspendCurrentProcess state frame m = some (kernel, m')) :
    ∃ p, m.Current p ∧ Left m m' kernel ∧ m'.scheduler = ⟨false,
      m.scheduler.data.putProc m.cpu.processId { p.saved frame with state := state }⟩ := by
  simp only [suspendCurrentProcess, bind_eq_some, Prod.exists] at done
  obtain ⟨kernel', a, suspended, b, popped, rfl, rfl⟩ := done
  obtain ⟨cpu, cpu', p, p', pushed, current, body, unlocked, clock, data⟩ :=
    withCurrentProcessAndState_spec suspended
  simp only [bind_eq_some, Prod.exists] at body
  obtain ⟨inner, pushedInner, kernel'', cpu'', left, rfl, rfl, rfl⟩ := body
  obtain ⟨present, rfl⟩ := leaveProcess_spec left
  obtain ⟨poppedCpu, poppedData, poppedClock⟩ := popCli_spec popped
  have outerRun := (Cpu.pushCli_spec pushed).2.2.1
  have innerRun := outerRun.trans (Cpu.pushCli_spec pushedInner).2.2.1
  have endRun := (Cpu.popCli_spec unlocked).2.2.1.trans (Cpu.popCli_spec poppedCpu).2.2.1
  refine ⟨p, current, ⟨clock.trans poppedClock, ?_, ?_, endRun.context, ?_, ?_⟩, ?_⟩
  · -- the guard is dropped before the inner `pop_cli`, so the two pairs nest either way
    refine Cpu.Balanced.of_push_pop pushed ?_ poppedCpu
    exact Cpu.Balanced.of_push_pop pushedInner (Cpu.balanced_context inner none) unlocked
  · rw [← innerRun.context, present]
  · rw [endRun.processId, ← innerRun.processId]
  · rw [endRun.scheduling, ← innerRun.scheduling]
  · rw [poppedData, data]
    rfl

theorem isProcessRunning_spec {found : Bool} (done : isProcessRunning pid m = some (found, m')) :
    m'.scheduler = ⟨false, m.scheduler.data⟩ ∧ SameClock m m' ∧ Cpu.Balanced m.cpu m'.cpu ∧
      Cpu.SameRun m.cpu m'.cpu := by
  obtain ⟨s', same, data, clock, balanced, run⟩ := locked_pure_spec (fun s => some
    ((s.runningWaitingProcs.keys ++ s.scheduledProcesses.map (·.process.id)).any (· == pid), s))
    done
  obtain ⟨-, rfl⟩ := same
  exact ⟨data, clock, balanced, run⟩

theorem takeChildExit_spec {exit : Option (BitVec 32)}
    (done : takeChildExit pid m = some (exit, m')) :
    ∃ p, m.Current p ∧ SameClock m m' ∧ Cpu.Balanced m.cpu m'.cpu ∧ Cpu.SameRun m.cpu m'.cpu ∧
      m'.scheduler = ⟨false, m.scheduler.data.putProc m.cpu.processId
        { p with process := (p.process.getChildExit pid).2 }⟩ := by
  obtain ⟨cpu, cpu', p, p', pushed, current, body, popped, clock, data⟩ :=
    withCurrentProcessAndState_spec done
  obtain ⟨-, rfl, rfl⟩ := body
  obtain ⟨balanced, run⟩ := Cpu.push_pop pushed popped
  exact ⟨p, current, clock, balanced, run, data⟩

/-- The process with the pid gets the priority, wherever it is. -/
def Reprioritised (pid : Nat) (level : Option PriorityLevel) (s s' : Scheduler) : Prop :=
  ∃ priority, changeProcess pid (givePriority level) s = some (priority, s')

/-- The process `spawn` creates. -/
def newProcess (id parentId : Nat) (context : ProcessContext) : Process :=
  { id := id, parentId := parentId, context := context, priority := .normal, exitCode := 0#32,
    childrenExits := SortedMap.empty }

theorem spawn_spec {parentId : Nat} {context : ProcessContext} {u : Unit}
    (done : spawn parentId context m = some (u, m')) :
    m'.scheduler = ⟨false, m.scheduler.data.pushProcess m.shutdown
        (newProcess m.nextProcessId parentId context)⟩ ∧
      m'.shutdown = m.shutdown ∧ m'.time = m.time ∧ m'.nextProcessId = m.nextProcessId + 1 ∧
      Cpu.Balanced m.cpu m'.cpu ∧ Cpu.SameRun m.cpu m'.cpu := by
  obtain ⟨s', same, data, clock, balanced, run⟩ := locked_pure_spec (fun s => some ((),
    s.pushProcess m.shutdown (newProcess m.nextProcessId parentId context))) done
  simp only [Option.some.injEq, Prod.mk.injEq, true_and] at same
  subst same
  exact ⟨data, clock.shutdown, clock.time, clock.nextProcessId, balanced, run⟩

/-! ## The loop -/

/-- What `schedule()` subtracts from the counter of the process it runs. -/
def decrement (top : SchedulerProcess) : Nat := 6 - top.process.priority.toNat

/-- The scheduler with the process taken from the heap running. -/
def runScheduler (s : Scheduler) (top : SchedulerProcess) (rest : List SchedulerProcess) :
    Scheduler :=
  { ({ s with scheduledProcesses := rest } : Scheduler).putProc top.process.id
      { top with state := .running, priorityCounter := top.priorityCounter - decrement top } with
    maxPriority := top.priorityCounter - decrement top }

theorem runTop_spec
    (done : runTop false top cpu { s with scheduledProcesses := rest } = some (cpu', s')) :
    top.state = .scheduled ∧ s' = runScheduler s top rest ∧ cpu' = { cpu with
      processId := top.process.id, context := some top.process.context, scheduling := true } := by
  simp only [runTop, Option.ite_none_right_eq_some, Bool.false_eq_true, if_false] at done
  obtain ⟨ready, -, rfl, rfl⟩ := done
  exact ⟨ready, rfl, rfl⟩

theorem scheduleLocked_spec {shutdown leave : Bool}
    (done : scheduleLocked shutdown time pick cpu s = some (leave, cpu', s')) :
    ∃ inner s₁, cpu.pushCli = some inner ∧ prepare shutdown time s = some s₁ ∧
      pick ∈ picks s₁.scheduledProcesses ∧
      runPick shutdown pick.1 inner { s₁ with scheduledProcesses := pick.2 } = some (cpu', s') ∧
      (leave = true ↔ shutdown = true ∧ s'.scheduledProcesses = [] ∧
        s'.runningWaitingProcs.entries = [] ∧ cpu'.context = none) := by
  simp only [scheduleLocked, bind_eq_some, Option.ite_none_right_eq_some, Prod.exists] at done
  obtain ⟨inner, pushed, s₁, prepared, legal, cpu'', s'', ran, rfl, rfl, rfl⟩ := done
  exact ⟨inner, s₁, pushed, prepared, legal, ran, by simp⟩

/-- What the loop has prepared when it calls `pop()`, and what `pop()` does. -/
structure Prepared (m : Machine) (pick : Option SchedulerProcess × List SchedulerProcess)
    (s : Scheduler) : Prop where
  free : m.cpu.context = none
  prepared : prepare m.shutdown m.time m.scheduler.data = some s
  legal : pick ∈ picks s.scheduledProcesses

theorem scheduleTurn_spec (done : scheduleTurn pick m = some (turn, m')) :
    ∃ s outer inner cpu s', Prepared m pick s ∧ SameClock m m' ∧ m'.scheduler = ⟨false, s'⟩ ∧
      m.cpu.pushCli = some outer ∧ outer.pushCli = some inner ∧
      runPick m.shutdown pick.1 inner { s with scheduledProcesses := pick.2 } = some (cpu, s') ∧
      cpu.popCli = some m'.cpu ∧ ∃ leave, (leave = true → m.shutdown = true) ∧
        turn = if leave then .leave else if m'.cpu.context.isSome then .run else .halt := by
  simp only [scheduleTurn, Option.ite_none_right_eq_some, bind_eq_some, Prod.exists] at done
  obtain ⟨free, leave, a, turned, rfl, rfl⟩ := done
  obtain ⟨outer, cpu, s', pushed, body, popped, -, data, clock⟩ := locked_spec turned
  obtain ⟨inner, s, pushedInner, prepared, legal, ran, leaves⟩ := scheduleLocked_spec body
  exact ⟨s, outer, inner, cpu, s', ⟨by simpa using free, prepared, legal⟩, clock, data, pushed,
    pushedInner, ran, popped, leave, fun left => (leaves.mp left).1, rfl⟩

/-- With nothing to run, the `push_cli` of the loop is never undone. -/
theorem scheduleTurn_none (done : scheduleTurn (none, rest) m = some (turn, m')) :
    ∃ s, Prepared m (none, rest) s ∧ SameClock m m' ∧
      m'.scheduler = ⟨false, { s with scheduledProcesses := rest }⟩ ∧
      m'.cpu.nCli = m.cpu.nCli + 1 ∧ m'.cpu.interruptFlag = false ∧ Cpu.SameRun m.cpu m'.cpu ∧
      turn ≠ .run := by
  obtain ⟨s, outer, inner, cpu, s', prepared, clock, data, pushed, pushedInner, ran, popped, leave,
    -, rfl⟩ := scheduleTurn_spec done
  obtain ⟨rfl, rfl⟩ := ran
  obtain ⟨depth, -, run, -⟩ := Cpu.pushCli_spec pushed
  obtain ⟨depthInner, -, runInner, -⟩ := Cpu.pushCli_spec pushedInner
  obtain ⟨depthEnd, -, runEnd, -, flag⟩ := Cpu.popCli_spec popped
  have run := (run.trans runInner).trans runEnd
  refine ⟨s, prepared, clock, data, by omega, ?_, run, ?_⟩
  · rw [← Bool.not_eq_true, flag]
    omega
  · rw [run.context, prepared.free]
    cases leave <;> simp

/-- With a process to run the nesting of `push_cli` is as before. -/
theorem scheduleTurn_some
    (running : m.shutdown = false) (done : scheduleTurn (some top, rest) m = some (turn, m')) :
    ∃ s, Prepared m (some top, rest) s ∧ top.state = .scheduled ∧ SameClock m m' ∧
      m'.scheduler = ⟨false, runScheduler s top rest⟩ ∧
      Cpu.Balanced m.cpu m'.cpu ∧ m'.cpu.context = some top.process.context ∧
      m'.cpu.processId = top.process.id ∧ m'.cpu.scheduling = true ∧ turn = .run := by
  obtain ⟨s, outer, inner, cpu, s', prepared, clock, data, pushed, pushedInner, ran, popped, leave,
    leaves, rfl⟩ := scheduleTurn_spec done
  simp only [running, runPick, bind_eq_some, Prod.exists] at ran
  obtain ⟨cpu, s'', ran, cpu', poppedInner, rfl, rfl⟩ := ran
  obtain ⟨ready, rfl, rfl⟩ := runTop_spec ran
  have runEnd := (Cpu.popCli_spec poppedInner).2.2.1.trans (Cpu.popCli_spec popped).2.2.1
  refine ⟨s, prepared, ready, clock, data, ?_, runEnd.context, runEnd.processId,
    runEnd.scheduling, ?_⟩
  · refine Cpu.Balanced.of_push_pop pushed ?_ popped
    refine Cpu.Balanced.of_push_pop pushedInner ?_ poppedInner
    exact ⟨rfl, rfl, fun _ => rfl⟩
  · have stays : leave ≠ true := fun left => by cases running.symm.trans (leaves left)
    rw [if_neg stays, runEnd.context]
    rfl

theorem picks_none {heap : List SchedulerProcess} (legal : (none, rest) ∈ picks heap) :
    heap = [] := by
  cases heap with
  | nil => rfl
  | cons p heap => simp [picks] at legal

/-- Before a process is popped: woken processes are added, and the counters restart if they are
all below the minimum. -/
theorem prepare_cases {timeNow : ClockTime} (prepared : prepare false timeNow s = some s') :
    ∃ woken, s.tryWakeWaitingProcesses false timeNow = some woken ∧
      ((woken.countersExhausted = false ∧ s' = woken) ∨
        (woken.countersExhausted = true ∧ s' = woken.resetScheduledProcessesCounters)) := by
  simp only [prepare, bind_eq_some] at prepared
  obtain ⟨woken, done, same⟩ := prepared
  refine ⟨woken, done, ?_⟩
  cases exhausted : woken.countersExhausted with
  | false => exact .inl ⟨rfl, by simpa [exhausted] using same.symm⟩
  | true => exact .inr ⟨rfl, by simpa [exhausted] using same.symm⟩

/-- While the system shuts down there is nothing to run. -/
theorem prepare_shutdown (prepared : prepare true time s = some s') :
    s'.scheduledProcesses = [] := by
  have unscheduled : ∀ (extracted : List (Nat × SchedulerProcess)) (a : Scheduler),
      a.scheduledProcesses = [] →
        (Scheduler.rescheduleAll true extracted a).scheduledProcesses = [] := by
    intro extracted
    induction extracted with
    | nil => exact fun a empty => empty
    | cons entry rest ih =>
      intro a empty
      exact ih _ empty
  have drained : ∀ (exited : List Process) (l : List SchedulerProcess),
      Scheduler.drainExited exited [] = some l → l = [] := by
    intro exited
    induction exited with
    | nil => exact fun l done => (Option.some.inj done).symm
    | cons e rest ih => exact fun l done => ih l done
  simp only [prepare, Scheduler.tryWakeWaitingProcesses, bind_eq_some, Prod.exists,
    Option.some.injEq] at prepared
  obtain ⟨s₁, ⟨left, kept, taken, -, l, drain, rfl⟩, rfl⟩ := prepared
  rw [unscheduled taken _ rfl] at drain
  obtain rfl := drained _ l drain
  split <;> rfl

/-- An interrupt whose handler keeps the nesting of `push_cli` keeps it. -/
theorem interrupt_spec {handler : Machine → Option (ProcessContext × Machine)}
    (done : m.interrupt handler = some m') :
    ∃ frame a, handler { m with cpu := m.cpu.enterInterrupt } = some (frame, a) ∧
      m' = { a with cpu := a.cpu.returnFromInterrupt frame } := by
  simp only [interrupt, bind_eq_some, Prod.exists, Option.some.injEq] at done
  obtain ⟨frame, a, handled, rfl⟩ := done
  exact ⟨frame, a, handled, rfl⟩

theorem schedulerInterruptHandler_spec
    (done : schedulerInterruptHandler frame m = some (frame', m')) :
    m.cpu.context = some frame' ∧
      m' = { m with cpu := { m.cpu with context := some frame, scheduling := false } } := by
  simp only [schedulerInterruptHandler, Option.ite_none_right_eq_some, bind_eq_some] at done
  obtain ⟨-, context, present, rfl, rfl⟩ := done
  exact ⟨present, rfl⟩

/-- An iteration of the loop that finds a process ends in that process. -/
theorem schedule_run_spec (done : m.schedule pick frame = some (.run, m')) :
    ∃ a, m.scheduleTurn pick = some (.run, a) ∧ m'.scheduler = a.scheduler ∧ SameClock a m' ∧
      m'.cpu.nCli = a.cpu.nCli ∧ m'.cpu.context = some frame ∧
      m'.cpu.processId = a.cpu.processId ∧ m'.cpu.scheduling = false := by
  simp only [schedule, bind_eq_some, Prod.exists] at done
  obtain ⟨turn, a, turned, rest⟩ := done
  cases turn with
  | run =>
    simp only [Option.ite_none_right_eq_some, bind_eq_some, Option.some.injEq, Prod.mk.injEq,
      true_and] at rest
    obtain ⟨-, b, interrupted, rfl⟩ := rest
    obtain ⟨process, c, handled, rfl⟩ := interrupt_spec interrupted
    obtain ⟨-, rfl⟩ := schedulerInterruptHandler_spec handled
    exact ⟨a, turned, rfl, ⟨rfl, rfl, rfl⟩, rfl, rfl, rfl, rfl⟩
  | leave => simp at rest
  | halt => simp at rest

theorem schedule_halt_spec (done : m.schedule pick frame = some (.halt, m')) :
    m.scheduleTurn pick = some (.halt, m') := by
  simp only [schedule, bind_eq_some, Prod.exists] at done
  obtain ⟨turn, a, turned, rest⟩ := done
  cases turn with
  | run =>
    simp only [Option.ite_none_right_eq_some, bind_eq_some, Option.some.injEq, Prod.mk.injEq,
      reduceCtorEq, false_and, and_false, exists_false] at rest
  | leave => simp at rest
  | halt =>
    simp only [Option.some.injEq] at rest
    rw [turned, rest]

end Machine

end Emerald
