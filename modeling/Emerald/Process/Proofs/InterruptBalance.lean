
import Emerald.Process.Proofs.StepEffects
import Emerald.Process.Proofs.Waking

/-!
# The balance of `push_cli` and `pop_cli` over the scheduling loop

An iteration of the loop of `schedule()` returns `n_cli` to its value exactly when it finds a
process to run. Otherwise the processor halts one level deeper, with interrupts disabled.
-/

namespace Emerald.Machine

open Scheduler

variable {m m' : Machine} {rest : List SchedulerProcess} {top : SchedulerProcess} {turn : Turn}

/-- The loop finds a process: one is scheduled, or one is woken first. -/
def Runnable (m : Machine) : Prop :=
  m.shutdown = false ∧
    (m.scheduler.data.scheduledProcesses ≠ [] ∨
      ∃ entry ∈ m.scheduler.data.runningWaitingProcs.entries,
        WakesUp m.time m.scheduler.data.runningWaitingProcs.entries
          m.scheduler.data.exitedProcesses entry)

instance (m : Machine) : Decidable m.Runnable :=
  inferInstanceAs (Decidable (_ ∧ (_ ∨ _)))

/-- Steps of the running process and of the rest of the system, until the loop goes on. -/
def Outside (m m' : Machine) : Prop :=
  ∃ a : Action, (∀ pick frame, a ≠ .schedule pick frame) ∧ m.step a = some m'

/-- One iteration of the loop of `schedule()` that does not leave it: to `hlt`, or through the
process it switches to and back. -/
inductive Iteration (m : Machine) : Machine → Prop
  | halt (pick : Option SchedulerProcess × List SchedulerProcess) (frame : ProcessContext)
      {m' : Machine} (halted : m.schedule pick frame = some (.halt, m')) : Iteration m m'
  | run (pick : Option SchedulerProcess × List SchedulerProcess) (frame : ProcessContext)
      {a m' : Machine} (entered : m.schedule pick frame = some (.run, a))
      (ran : Relation.ReflTransGen Outside a m') (back : m'.cpu.context = none) : Iteration m m'

/-! ## Everything but the loop is balanced -/

theorem outside_nCli (ran : Relation.ReflTransGen Outside m m') : m'.cpu.nCli = m.cpu.nCli := by
  induction ran with
  | refl => rfl
  | tail _ last ih =>
    obtain ⟨a, outside, stepped⟩ := last
    rw [(step_outside outside stepped).1, ih]

/-! ## What the loop finds -/

theorem picks_some {heap : List SchedulerProcess}
    (legal : (some top, rest) ∈ picks heap) : heap ≠ [] := by
  rintro rfl
  simp [picks] at legal

theorem prepare_scheduled_eq_nil_iff {time : ClockTime} {s s' : Scheduler}
    (prepared : prepare false time s = some s') :
    s'.scheduledProcesses = [] ↔ s.awakened time = [] ∧ s.scheduledProcesses = [] := by
  obtain ⟨woken, done, ⟨-, same⟩ | ⟨-, same⟩⟩ := prepare_cases prepared
  · obtain ⟨-, -, -, scheduled⟩ := tryWakeWaitingProcesses_eq_some done
    rw [same, scheduled]
    simp
  · obtain ⟨-, -, -, scheduled⟩ := tryWakeWaitingProcesses_eq_some done
    rw [same, resetScheduledProcessesCounters, scheduled]
    simp

/-- The heap the loop pops from is empty exactly when nothing is runnable. -/
theorem prepared_eq_nil_iff {s : Scheduler}
    (prepared : prepare m.shutdown m.time m.scheduler.data = some s) :
    s.scheduledProcesses = [] ↔ ¬ m.Runnable := by
  cases stopping : m.shutdown with
  | true =>
    rw [stopping] at prepared
    simp [prepare_shutdown prepared, Runnable, stopping]
  | false =>
    rw [stopping] at prepared
    rw [prepare_scheduled_eq_nil_iff prepared, awakened_eq_nil_iff]
    simp only [Runnable, stopping, true_and, not_or, not_not, not_exists, not_and]
    exact and_comm

/-- An iteration that pops a process was runnable. -/
theorem runnable_of_pick
    (turned : scheduleTurn (some top, rest) m = some (turn, m')) : m.Runnable := by
  obtain ⟨s, -, -, -, -, prepared, -⟩ := scheduleTurn_spec turned
  by_contra idle
  exact picks_some prepared.legal ((prepared_eq_nil_iff prepared.prepared).mpr idle)

/-- One that pops nothing was not. -/
theorem not_runnable_of_pick
    (turned : scheduleTurn (none, rest) m = some (turn, m')) : ¬ m.Runnable := by
  obtain ⟨s, -, -, -, -, prepared, -⟩ := scheduleTurn_spec turned
  exact (prepared_eq_nil_iff prepared.prepared).mp (picks_none prepared.legal)

theorem Iteration.of_runnable (turned : Iteration m m') (busy : m.Runnable) :
    m'.cpu.nCli = m.cpu.nCli := by
  cases turned with
  | halt pick frame halted =>
    obtain ⟨top | top, rest⟩ := pick
    · exact absurd busy (not_runnable_of_pick (schedule_halt_spec halted))
    · obtain ⟨-, -, -, -, -, -, -, -, -, turn⟩ :=
        scheduleTurn_some busy.1 (schedule_halt_spec halted)
      simp at turn
  | run pick frame entered ran back =>
    obtain ⟨b, turned, -, -, depth, -⟩ := schedule_run_spec entered
    obtain ⟨top | top, rest⟩ := pick
    · exact absurd busy (not_runnable_of_pick turned)
    · obtain ⟨-, -, -, -, -, balanced, -⟩ := scheduleTurn_some busy.1 turned
      rw [outside_nCli ran, depth, balanced.nCli]

theorem Iteration.of_not_runnable (turned : Iteration m m') (idle : ¬ m.Runnable) :
    m'.cpu.nCli = m.cpu.nCli + 1 ∧ m'.cpu.interruptFlag = false := by
  cases turned with
  | halt pick frame halted =>
    obtain ⟨top | top, rest⟩ := pick
    · obtain ⟨-, -, -, -, depth, flag, -⟩ := scheduleTurn_none (schedule_halt_spec halted)
      exact ⟨depth, flag⟩
    · exact absurd (runnable_of_pick (schedule_halt_spec halted)) idle
  | run pick frame entered ran back =>
    obtain ⟨b, turned, -⟩ := schedule_run_spec entered
    obtain ⟨top | top, rest⟩ := pick
    · obtain ⟨-, -, -, -, -, -, -, turn⟩ := scheduleTurn_none turned
      exact absurd rfl turn
    · exact absurd (runnable_of_pick turned) idle

/-- From every content of the queues, the iteration ends with `n_cli` as it began if and only if
it finds a process to run; if it finds none it halts one level deeper with interrupts disabled.
Hence a sequence of iterations that each find one leaves `n_cli` as it was. -/
theorem nCli_iteration_iff (m m' : Machine) :
    (Iteration m m' → (m'.cpu.nCli = m.cpu.nCli ↔ m.Runnable) ∧
      (¬ m.Runnable → m'.cpu.nCli = m.cpu.nCli + 1 ∧ m'.cpu.interruptFlag = false)) ∧
    (Relation.ReflTransGen (fun a b => a.Runnable ∧ Iteration a b) m m' →
      m'.cpu.nCli = m.cpu.nCli) := by
  refine ⟨fun turned => ⟨⟨?_, turned.of_runnable⟩, turned.of_not_runnable⟩, ?_⟩
  · intro same
    by_contra idle
    have := (turned.of_not_runnable idle).1
    omega
  · intro turns
    induction turns with
    | refl => rfl
    | tail _ last ih => rw [last.2.of_runnable last.1, ih]

/-- The init process as it is after it was pushed at boot. -/
def initProcess : SchedulerProcess :=
  { process := newProcess 0 0 userContext, state := .scheduled, priorityCounter := u64Max }

/-- The machine when only the init process is there, and it sleeps until one second after boot. -/
def initSleeping : Machine :=
  { boot with
    scheduler := Mutex.new { Scheduler.new with
      maxPriority := u64Max - 3
      runningWaitingProcs := SortedMap.empty.insert 0
        { initProcess with state := .waitingForTime ⟨0, 1⟩, priorityCounter := u64Max - 3 } }
    nextProcessId := 1 }

/-- When the second is over the iteration finds the init process, goes through it and back on a
timer interrupt, and leaves `n_cli` as it was. -/
theorem nCli_iteration_init_awake :
    ∃ m', Runnable { initSleeping with time := ⟨0, 1⟩ } ∧
      Iteration { initSleeping with time := ⟨0, 1⟩ } m' ∧ m'.cpu.nCli = 0 := by
  have through : (schedule (some { initProcess with priorityCounter := u64Max - 3 }, [])
      kernelContext { initSleeping with time := ⟨0, 1⟩ }).bind (fun turned =>
        (turned.2.step (.yield userContext)).map (fun m' => (turned.1, m'.cpu.context))) =
      some (.run, none) := by
    decide +kernel
  simp only [Option.bind_eq_some_iff, Option.map_eq_some_iff, Prod.mk.injEq, Prod.exists] at through
  obtain ⟨turn, a, entered, m', left, rfl, back⟩ := through
  have busy : Runnable { initSleeping with time := ⟨0, 1⟩ } := by decide +kernel
  have turned : Iteration { initSleeping with time := ⟨0, 1⟩ } m' :=
    .run _ _ entered (.single ⟨_, by simp, left⟩) back
  exact ⟨m', busy, turned, (((nCli_iteration_iff _ _).1 turned).1.mpr busy).trans rfl⟩

/-- The init process sleeps and nothing else is there to run: the next iteration of the loop
executes `hlt` with interrupts disabled by its own `push_cli`. -/
theorem halt_with_interrupts_disabled :
    runCalls step (fun _ _ => true) boot
        [.push 0 userContext, .schedule (some initProcess, []) kernelContext,
          .sleep ⟨0, 1⟩ userContext] = some initSleeping ∧
      initSleeping.cpu.nCli = 0 ∧ initSleeping.cpu.interruptFlag = true ∧
      ∃ m', initSleeping.schedule (none, []) kernelContext = some (.halt, m') ∧
        m'.cpu.nCli = 1 ∧ m'.cpu.interruptFlag = false := by
  refine ⟨by decide +kernel, rfl, rfl, { initSleeping with cpu := { initSleeping.cpu with
    nCli := 1, interruptFlag := false, oldInterruptEnable := true } }, ?_, rfl, rfl⟩
  decide +kernel

end Emerald.Machine
