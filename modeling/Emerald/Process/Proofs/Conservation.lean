
import Emerald.Process.Proofs.SchedulerInvariant

/-!
# No process is lost or duplicated

Over every run before a shutdown, the processes that were pushed and have not exited are the ones
in the heap and in the map, each of them once, and the process on the processor is the only
running one.
-/

namespace Emerald
variable {pid : Nat}

namespace Scheduler

section
variable {timeNow : ClockTime} {s s' : Scheduler} {p' : SchedulerProcess}

theorem livePids_wake (done : s.tryWakeWaitingProcesses false timeNow = some s') :
    s'.livePids.Perm s.livePids := by
  have perm := wake_pids done
  obtain ⟨gone, -⟩ := tryWakeWaitingProcesses_eq_some done
  simp only [pids, gone, List.map_nil, List.append_nil] at perm
  exact (List.perm_append_right_iff _).mp perm

theorem livePids_prepare (prepared : Machine.prepare false timeNow s = some s') :
    s'.livePids.Perm s.livePids := by
  obtain ⟨woken, done, ⟨-, rfl⟩ | ⟨-, rfl⟩⟩ := Machine.prepare_cases prepared
  · exact livePids_wake done
  · refine List.Perm.trans ?_ (livePids_wake done)
    simp [livePids, live, resetScheduledProcessesCounters, Function.comp_def]

/-- The waking pass and the reset of the counters change the state of no process that stays. -/
theorem get?_prepare (prepared : Machine.prepare false timeNow s = some s')
    (found : s'.runningWaitingProcs.get? pid = some p') :
    ∃ p, s.runningWaitingProcs.get? pid = some p ∧ p'.state = p.state := by
  obtain ⟨woken, done, same⟩ := Machine.prepare_cases prepared
  have kept : s'.runningWaitingProcs = woken.runningWaitingProcs := by
    rcases same with ⟨-, rfl⟩ | ⟨-, rfl⟩ <;> rfl
  obtain ⟨-, -, entries, -⟩ := tryWakeWaitingProcesses_eq_some done
  rw [kept, SortedMap.get?_eq_some_iff, entries] at found
  obtain ⟨⟨key, p⟩, present, after⟩ := List.mem_map.mp found
  cases after
  refine ⟨p, ?_, by simp⟩
  rw [SortedMap.get?_eq_some_iff]
  exact (List.mem_filter.mp present).1

end

end Scheduler

namespace Machine
variable {a : Action}

open Scheduler

/-- One step moves no pid but the ones it pushes or ends. -/
theorem Effect.livePids {m m' : Machine} (effect : Effect m a m')
    (wf : Wf m.nextProcessId m.scheduler.data) :
    (m.exitedBy a ++ m'.scheduler.data.livePids).Perm
      (m.pushedBy a ++ m.scheduler.data.livePids) := by
  cases effect with
  | same quiet data run => rw [quiet.pushed, quiet.exited, data]
  | push parentId context data run =>
    rw [data]
    exact List.Perm.refl _
  | exit exitCode frame p current data off =>
    have id := wf.id_eq current.1
    rw [data]
    refine List.Perm.trans ?_ ((live_dropProc current.1).map (·.process.id)).symm
    rw [List.map_cons, id]
    exact List.Perm.refl _
  | suspend p frame state quiet current waits user data off =>
    rw [quiet.pushed, quiet.exited, data]
    exact livePids_putProc current.1 rfl
  | yield frame p current data off =>
    rw [data]
    exact ((live_dropProc current.1).map (·.process.id)).symm
  | takeExit pid p current data run =>
    rw [data]
    exact livePids_putProc current.1 rfl
  | priority pid level changed run => exact (wf.reprioritised changed).ids
  | schedule frame pass =>
    cases pass with
    | halt rest free prepared idle run => exact livePids_prepare prepared
    | run s top rest free prepared legal data on pid =>
      rw [data]
      refine List.Perm.trans ?_ (livePids_prepare prepared)
      refine (((wf.prepare prepared).live_run legal _).map (·.process.id)).trans ?_
      exact ((live_pick legal).map (·.process.id)).symm

/-! ## The running process -/

/-- A running process is the one of the processor, which has one while its context is set. -/
structure OneRunning (m : Machine) : Prop where
  only : ∀ pid p, m.scheduler.data.runningWaitingProcs.get? pid = some p → p.state = .running →
    m.cpu.context.isSome ∧ pid = m.cpu.processId
  current : m.cpu.context.isSome → ∃ p, m.Current p

section
variable {m m' : Machine} {p : SchedulerProcess}

/-- The scheduler and the processor are as before, up to states that stay the same. -/
theorem OneRunning.keep (one : OneRunning m) (run : Cpu.SameRun m.cpu m'.cpu)
    (same : ∀ pid, (m'.scheduler.data.runningWaitingProcs.get? pid).map (·.state) =
      (m.scheduler.data.runningWaitingProcs.get? pid).map (·.state)) : OneRunning m' := by
  constructor
  · intro pid p found running
    have before := same pid
    rw [found] at before
    obtain ⟨q, present, state⟩ := Option.map_eq_some_iff.mp before.symm
    rw [run.context, run.processId]
    exact one.only pid q present (state.trans running)
  · intro on
    rw [run.context] at on
    obtain ⟨q, present, running⟩ := one.current on
    have after := same m.cpu.processId
    rw [present] at after
    obtain ⟨p, found, state⟩ := Option.map_eq_some_iff.mp after
    refine ⟨p, ?_, state.trans running⟩
    rw [run.processId]
    exact found

/-- The process has left the processor, and is not running any more. -/
theorem OneRunning.leave (one : OneRunning m) (off : m'.cpu.context = none)
    (others : ∀ pid p, m'.scheduler.data.runningWaitingProcs.get? pid = some p →
      p.state = .running → pid ≠ m.cpu.processId ∧
        m.scheduler.data.runningWaitingProcs.get? pid = some p) : OneRunning m' := by
  constructor
  · intro pid p found running
    obtain ⟨apart, before⟩ := others pid p found running
    exact absurd (one.only pid p before running).2 apart
  · intro on
    simp [off] at on

/-- With no process on the processor none is running, also after the waking pass. -/
theorem OneRunning.not_running {s : Scheduler} {timeNow : ClockTime} (one : OneRunning m)
    (free : m.cpu.context = none) (prepared : prepare false timeNow m.scheduler.data = some s)
    (found : s.runningWaitingProcs.get? pid = some p) : p.state ≠ .running := by
  intro running
  obtain ⟨q, before, state⟩ := get?_prepare prepared found
  have on := (one.only pid q before (state.symm.trans running)).1
  simp [free] at on

theorem Effect.oneRunning (effect : Effect m a m') (wf : Wf m.nextProcessId m.scheduler.data)
    (one : OneRunning m) : OneRunning m' := by
  cases effect with
  | same quiet data run => exact one.keep run fun pid => by rw [data]
  | push parentId context data run => exact one.keep run fun pid => by rw [data]; rfl
  | exit exitCode frame p current data off | yield frame p current data off =>
    refine one.leave off fun pid q found _ => ?_
    rw [data] at found
    exact SortedMap.get?_erase_eq_some.mp found
  | suspend p frame state quiet current waits user data off =>
    refine one.leave off fun pid q found running => ?_
    rw [data] at found
    simp only [putProc, SortedMap.get?_insert] at found
    split at found
    · cases found
      exact absurd running waits.2
    · rename_i apart
      exact ⟨apart, found⟩
  | takeExit pid p current data run =>
    refine one.keep run fun key => ?_
    rw [data]
    simp only [putProc, SortedMap.get?_insert]
    split
    · rename_i same
      rw [same, current.1]
      rfl
    · rfl
  | priority pid level changed run =>
    refine one.keep run fun key => ?_
    simpa [Function.comp_def] using
      congrArg (Option.map (·.state)) ((wf.reprioritised changed).map key)
  | schedule frame pass =>
    cases pass with
    | halt rest free prepared idle run =>
      refine ⟨fun pid p found running => ?_, fun on => ?_⟩
      · exact absurd running (one.not_running free prepared found)
      · rw [run.context, free] at on
        simp at on
    | run s top rest free prepared legal data on pid =>
      refine ⟨fun key p found running => ⟨on, ?_⟩, fun _ => ?_⟩
      · rw [data] at found
        simp only [runScheduler, putProc, SortedMap.get?_insert] at found
        split at found
        · rename_i same
          rw [pid, same]
        · exact absurd running (one.not_running free prepared found)
      · refine ⟨{ top with
          state := .running
          priorityCounter := top.priorityCounter - decrement top }, ?_, rfl⟩
        rw [data, pid]
        exact SortedMap.get?_insert_self _ _ _

end

/-! ## Whole runs -/

/-- A state of the system with the pids that were pushed and the ones of the processes that have
exited on the way to it. -/
structure History where
  machine : Machine
  pushed : List Nat
  exited : List Nat
  deriving DecidableEq

namespace History

def step (h : History) (a : Action) : Option History :=
  (h.machine.step a).map fun m =>
    ⟨m, h.machine.pushedBy a ++ h.pushed, h.machine.exitedBy a ++ h.exited⟩

def start : History := ⟨boot, [], []⟩

/-- The runs before a shutdown. -/
def Reached (h : History) : Prop :=
  Reachable (fun h a h' => step h a = some h') (fun _ a => a ≠ .stop) (· = start) h

structure Inv (h : History) : Prop where
  running : h.machine.shutdown = false
  wf : Wf h.machine.nextProcessId h.machine.scheduler.data
  one : OneRunning h.machine
  pids : (h.exited ++ h.machine.scheduler.data.livePids).Perm h.pushed

theorem inv_start : Inv start := by
  refine ⟨rfl, (wf_of_running (.start rfl)).2, ⟨?_, ?_⟩, List.Perm.refl _⟩
  · intro pid p found
    exact nomatch found
  · intro on
    exact nomatch on

theorem Inv.step {h h' : History} (inv : Inv h) (going : a ≠ .stop)
    (stepped : History.step h a = some h') : Inv h' := by
  obtain ⟨m, taken, rfl⟩ := Option.map_eq_some_iff.mp stepped
  obtain ⟨effect, running, -⟩ := step_effect inv.running going taken
  refine ⟨running, (step_wf inv.running inv.wf going taken).2, effect.oneRunning inv.wf inv.one, ?_⟩
  have moved := effect.livePids inv.wf
  simp only [List.append_assoc]
  calc h.machine.exitedBy a ++ (h.exited ++ m.scheduler.data.livePids)
      _ |>.Perm (h.exited ++ (h.machine.exitedBy a ++ m.scheduler.data.livePids)) :=
        List.perm_append_comm_assoc _ _ _
      _ |>.Perm (h.exited ++ (h.machine.pushedBy a ++ h.machine.scheduler.data.livePids)) :=
        moved.append_left _
      _ |>.Perm (h.machine.pushedBy a ++ (h.exited ++ h.machine.scheduler.data.livePids)) :=
        List.perm_append_comm_assoc _ _ _
      _ |>.Perm (h.machine.pushedBy a ++ h.pushed) := inv.pids.append_left _

theorem inv_of_reached : ∀ h, Reached h → Inv h :=
  Reachable.invariant (fun _ first => first ▸ inv_start)
    fun _ _ _ inv going stepped => inv.step going stepped

/-- The bookkeeping of the processes. -/
structure Conserved (h : History) : Prop where
  once : ∀ pid ∈ h.pushed, pid ∉ h.exited → h.machine.scheduler.data.livePids.count pid = 1
  scheduled : ∀ p ∈ h.machine.scheduler.data.scheduledProcesses, p.state = .scheduled
  keyed : ∀ entry ∈ h.machine.scheduler.data.runningWaitingProcs.entries,
    entry.2.process.id = entry.1
  runningOrWaiting : ∀ entry ∈ h.machine.scheduler.data.runningWaitingProcs.entries,
    entry.2.state = .running ∨ (∃ pid, entry.2.state = .waitingForPid pid) ∨
      ∃ time, entry.2.state = .waitingForTime time
  oneRunning : ∀ entry ∈ h.machine.scheduler.data.runningWaitingProcs.entries,
    entry.2.state = .running →
      h.machine.cpu.context.isSome ∧ entry.2.process.id = h.machine.cpu.processId
  current : h.machine.cpu.context.isSome → ∃ p, h.machine.Current p

theorem Inv.count_eq_one {h : History} (inv : Inv h) (pushed : pid ∈ h.pushed)
    (alive : pid ∉ h.exited) : h.machine.scheduler.data.livePids.count pid = 1 := by
  have distinct : h.machine.scheduler.data.livePids.Nodup :=
    (List.nodup_append.mp inv.wf.distinct).1
  refine List.count_eq_one_of_mem distinct ?_
  cases List.mem_append.mp (inv.pids.mem_iff.mpr pushed) with
  | inl exited => exact absurd exited alive
  | inr present => exact present

/-- In every run before a shutdown. -/
theorem conserved_of_reached (h : History) (reached : Reached h) : Conserved h := by
  have inv := inv_of_reached h reached
  refine ⟨fun pid => inv.count_eq_one, inv.wf.scheduled, inv.wf.keyed, ?_, ?_, inv.one.current⟩
  · intro entry mem
    have notScheduled := inv.wf.waiting entry mem
    cases state : entry.2.state with
    | running => exact .inl rfl
    | scheduled => exact absurd state notScheduled
    | waitingForPid pid => exact .inr (.inl ⟨pid, rfl⟩)
    | waitingForTime time => exact .inr (.inr ⟨time, rfl⟩)
  · intro entry mem running
    rw [inv.wf.keyed entry mem]
    exact inv.one.only entry.1 entry.2 ((SortedMap.get?_eq_some_iff _).mpr mem) running

/-- The init process starts a child and goes to sleep. -/
def someActions : List Action :=
  [.push 0 userContext, .schedule (some initProcess, []) kernelContext, .push 0 userContext,
    .sleep ⟨0, 10⟩ userContext]

theorem conserved_someActions :
    ∃ h, Reached h ∧ h.pushed = [1, 0] ∧ h.machine.scheduler.data.livePids = [1, 0] ∧
      Conserved h := by
  obtain ⟨h, reached, pushed, live⟩ : ∃ h, Reached h ∧
      h.pushed = [1, 0] ∧ h.machine.scheduler.data.livePids = [1, 0] :=
    Reachable.exists_of_run rfl someActions (by decide +kernel)
  exact ⟨h, reached, pushed, live, conserved_of_reached h reached⟩

end History

end Machine

end Emerald
