
import Emerald.Misc.LevelQueue
import Emerald.Process.Proofs.Conservation

/-!
# Fairness of the scheduling loop

The heap of scheduled processes is a queue served by level: the level of a process is its
`priority_counter`, and the level of one that is scheduled anew is `max_priority`. Every run of the
system before a shutdown is a run of this queue, so what holds of the queue holds of the scheduler
(`book/src/kernel/processes/scheduler.md`).
-/

namespace Emerald

open LevelQueue

namespace Scheduler

/-- The pids of the scheduled processes with their counters. -/
def queue (s : Scheduler) : LevelQueue Nat :=
  ⟨s.scheduledProcesses.map fun p => (p.process.id, p.priorityCounter), s.maxPriority⟩

/-- A process loses at most five from its counter per turn; the counters restart below
`MIN_PRIORITY_VALUE`. -/
def limits : Limits := ⟨5, minPriorityValue, u64Max, by decide, by decide⟩

section
variable {next : Nat} {timeNow : ClockTime} {s s' : Scheduler}

theorem queue_keys (s : Scheduler) :
    s.queue.entries.map Prod.fst = s.scheduledProcesses.map (·.process.id) := by
  simp [queue]

theorem Wf.queue_distinct (wf : Wf next s) : (s.queue.entries.map Prod.fst).Nodup := by
  rw [queue_keys]
  have distinct := (List.nodup_append.mp wf.distinct).1
  rw [live, List.map_append] at distinct
  exact (List.nodup_append.mp distinct).1

/-- A process is scheduled anew. -/
theorem queue_reschedule {p : SchedulerProcess} (s : Scheduler)
    (wf : Wf next (s.rescheduleProcess false p)) :
    Path limits s.queue [] (s.rescheduleProcess false p).queue :=
  .single (.join [p.process.id] _ (List.Perm.refl _) wf.queue_distinct)

/-- The woken processes are scheduled anew. -/
theorem queue_wake (wf : Wf next s') (done : s.tryWakeWaitingProcesses false timeNow = some s') :
    Path limits s.queue [] s'.queue := by
  obtain ⟨-, level, -, scheduled⟩ := tryWakeWaitingProcesses_eq_some done
  have joined : s'.queue.entries.Perm
      (((s.awakened timeNow).reverse.map (·.process.id)).map (·, s.queue.level) ++
        s.queue.entries) := by
    have fresh : ∀ p ∈ (s.awakened timeNow).reverse, p.priorityCounter = s.maxPriority := by
      intro p mem
      obtain ⟨entry, -, -, rfl⟩ := mem_awakened.mp (List.mem_reverse.mp mem)
      rfl
    have unchanged : (fun p : SchedulerProcess => (p.process.id, p.priorityCounter)) ∘
        recorded (unclaimed s.runningWaitingProcs.entries s.exitedProcesses) =
        fun p => (p.process.id, p.priorityCounter) := by
      funext p
      simp [recorded]
    simp only [queue, scheduled, List.map_append, List.map_map, unchanged]
    refine List.Perm.append_right _ (List.Perm.of_eq ?_)
    refine List.map_congr_left fun p mem => ?_
    rw [Function.comp_apply, ← fresh p mem]
  have move := Move.join (l := limits) _ _ joined wf.queue_distinct
  have same : (⟨s'.queue.entries, s.queue.level⟩ : LevelQueue Nat) = s'.queue := by
    simp only [queue, level]
  rw [same] at move
  exact .single move

/-- What `pop()` takes has the highest counter. -/
theorem picks_highest {heap rest : List SchedulerProcess} {top : SchedulerProcess}
    (legal : (some top, rest) ∈ Machine.picks heap) :
    ∀ p ∈ rest, p.priorityCounter ≤ top.priorityCounter := by
  cases heap with
  | nil => simp [Machine.picks] at legal
  | cons q heap =>
    simp only [Machine.picks, List.mem_map, Prod.exists, pops, List.mem_filter, List.all_eq_true,
      decide_eq_true_eq] at legal
    obtain ⟨x, rest', ⟨-, highest⟩, rfl, rfl⟩ := legal
    exact highest

section
variable {top : SchedulerProcess} {rest : List SchedulerProcess}

theorem counter_reset (legal : (some top, rest) ∈
      Machine.picks s.resetScheduledProcessesCounters.scheduledProcesses) :
    ∀ p ∈ top :: rest, p.priorityCounter = u64Max := by
  intro p mem
  obtain ⟨q, -, rfl⟩ := List.mem_map.mp ((picks_perm legal).mem_iff.mpr mem)
  rfl

theorem minPriorityValue_le_counter (enough : s.countersExhausted = false)
    (legal : (some top, rest) ∈ Machine.picks s.scheduledProcesses) :
    minPriorityValue ≤ top.priorityCounter := by
  have inHeap := picks_perm legal
  have nonempty : s.scheduledProcesses ≠ [] := by
    intro empty
    simp [empty] at inHeap
  simp only [countersExhausted, decide_eq_false_iff_not, not_and, List.all_eq_true,
    decide_eq_true_eq] at enough
  have some_enough := enough nonempty
  push Not at some_enough
  obtain ⟨p, mem, high⟩ := some_enough
  cases List.mem_cons.mp (inHeap.mem_iff.mp mem) with
  | inl same => exact same ▸ high
  | inr other => exact le_trans high (picks_highest legal p other)

/-- The counter of a process that is taken is far from zero. -/
theorem counter_of_prepared (prepared : Machine.prepare false timeNow s = some s')
    (legal : (some top, rest) ∈ Machine.picks s'.scheduledProcesses) :
    minPriorityValue ≤ top.priorityCounter := by
  obtain ⟨woken, -, ⟨enough, rfl⟩ | ⟨-, rfl⟩⟩ := Machine.prepare_cases prepared
  · exact minPriorityValue_le_counter enough legal
  · rw [counter_reset legal top List.mem_cons_self]
    decide

theorem decrement_bounds (top : SchedulerProcess) :
    1 ≤ Machine.decrement top ∧ Machine.decrement top ≤ limits.spread := by
  unfold Machine.decrement
  cases top.process.priority <;> decide

/-- A turn of the loop that runs a process: the woken processes join the queue, and one is
taken. -/
theorem queue_run (wf : Wf next s) (prepared : Machine.prepare false timeNow s = some s')
    (legal : (some top, rest) ∈ Machine.picks s'.scheduledProcesses) :
    Path limits s.queue [top.process.id] (Machine.runScheduler s' top rest).queue := by
  obtain ⟨falls, small⟩ := decrement_bounds top
  obtain ⟨woken, done, cases⟩ := Machine.prepare_cases prepared
  have joined := queue_wake (wf.wake done) done
  refine joined.trans (.single ?_)
  rcases cases with ⟨enough, rfl⟩ | ⟨exhausted, rfl⟩
  · refine .take _ top.priorityCounter _ _ ?_ ?_ (minPriorityValue_le_counter enough legal)
      falls small
    · exact (picks_perm legal).map _
    · intro e mem
      obtain ⟨p, present, rfl⟩ := List.mem_map.mp mem
      exact picks_highest legal p present
  · have atTop := counter_reset legal
    have same : (Machine.runScheduler woken.resetScheduledProcessesCounters top rest).queue =
        ⟨rest.map fun p => (p.process.id, p.priorityCounter),
          limits.top - Machine.decrement top⟩ := by
      simp only [Machine.runScheduler, atTop top List.mem_cons_self]
      rfl
    rw [same]
    refine .restart _ _ _ ?_ ?_ ?_ falls small
    · rw [queue_keys]
      have split := (picks_perm legal).map (·.process.id)
      simpa [resetScheduledProcessesCounters, Function.comp_def] using split
    · intro e mem
      obtain ⟨p, present, rfl⟩ := List.mem_map.mp mem
      exact atTop p (List.mem_cons_of_mem _ present)
    · intro e mem
      obtain ⟨p, present, rfl⟩ := List.mem_map.mp mem
      simp only [countersExhausted, decide_eq_true_eq, List.all_eq_true] at exhausted
      exact exhausted.2 p present

end

end

end Scheduler

namespace Machine

open Scheduler

/-- Every step of the system is a run of the queue that takes what the step runs. -/
theorem Effect.path {m m' : Machine} {a : Action} (effect : Effect m a m')
    (wf : Wf m.nextProcessId m.scheduler.data)
    (wf' : Wf m'.nextProcessId m'.scheduler.data) :
    Path limits m.scheduler.data.queue (takenBy a) m'.scheduler.data.queue := by
  cases effect with
  | same quiet data run | suspend p frame state quiet current waits user data off =>
    rw [quiet.taken, data]
    exact .refl _
  | push parentId context data run =>
    rw [data] at wf' ⊢
    exact queue_reschedule _ wf'
  | exit exitCode frame p current data off | takeExit pid p current data run =>
    rw [data]
    exact .refl _
  | yield frame p current data off =>
    rw [data] at wf' ⊢
    exact queue_reschedule (m.scheduler.data.dropProc m.cpu.processId) wf'
  | priority pid level changed run =>
    have rewritten := wf.reprioritised changed
    have entries := congrArg (List.map fun p => (p.process.id, p.priorityCounter)) rewritten.heap
    simp only [List.map_map, Function.comp_def, blank_id, blank_priorityCounter] at entries
    rw [queue, queue, entries, rewritten.level]
    exact .refl _
  | schedule frame pass =>
    cases pass with
    | halt rest free prepared idle run =>
      obtain ⟨woken, done, ⟨-, same⟩ | ⟨-, same⟩⟩ := Machine.prepare_cases prepared
      · rw [same]
        exact queue_wake (same ▸ wf') done
      · rw [same, resetScheduledProcessesCounters, List.map_eq_nil_iff] at idle
        have unchanged : m'.scheduler.data.queue = woken.queue := by
          simp [same, queue, resetScheduledProcessesCounters, idle]
        rw [unchanged]
        exact queue_wake (wf.wake done) done
    | run s top rest free prepared legal data on pid =>
      rw [data]
      exact queue_run wf prepared legal

theorem fair_boot : Fair limits boot.scheduler.data.queue := by
  refine ⟨List.nodup_nil, ?_, ?_⟩
  · intro a mem
    rw [List.mem_singleton.mp mem]
    decide
  · intro a first b second
    rw [List.mem_singleton.mp first, List.mem_singleton.mp second]
    exact Nat.le_add_right _ _

theorem queue_of_running {m : Machine} (reached : Running m) :
    Fair limits m.scheduler.data.queue := by
  induction reached with
  | start first =>
    rw [first]
    exact fair_boot
  | call a reached going stepped ih =>
    obtain ⟨running, wf⟩ := wf_of_running reached
    have wf' := (wf_of_running (.call a reached going stepped)).2
    exact ih.path ((step_effect running going stepped).1.path wf wf')

/-- The rest of a run is a run of the queue, too. -/
theorem path_of_runCalls {m m' : Machine} {actions : List Action} (reached : Running m)
    (going : ∀ a ∈ actions, a ≠ .stop)
    (run : runCalls step (fun _ _ => true) m actions = some m') :
    Path limits m.scheduler.data.queue (actions.flatMap takenBy) m'.scheduler.data.queue := by
  induction actions generalizing m with
  | nil =>
    rw [← Option.some.inj run]
    exact .refl _
  | cons a rest ih =>
    simp only [runCalls, if_true] at run
    split at run
    · rename_i next stepped
      have goes := going a List.mem_cons_self
      have reached' : Running next := .call a reached goes stepped
      obtain ⟨running, wf⟩ := wf_of_running reached
      have first := (step_effect running goes stepped).1.path wf (wf_of_running reached').2
      exact first.trans (ih reached' (fun b mem => going b (List.mem_cons_of_mem _ mem)) run)
    · simp at run

/-- In every state before a shutdown the counters of the scheduled processes are within five of
each other and of `max_priority`, subtracting from the counter of the process that is run next does
not underflow, and while a process is scheduled any other one runs at most six times. -/
theorem fair_of_running {m : Machine} (reached : Running m) :
    (∀ p ∈ m.scheduler.data.scheduledProcesses, ∀ q ∈ m.scheduler.data.scheduledProcesses,
        p.priorityCounter ≤ q.priorityCounter + 5) ∧
      (∀ p ∈ m.scheduler.data.scheduledProcesses,
        p.priorityCounter ≤ m.scheduler.data.maxPriority + 5 ∧
          m.scheduler.data.maxPriority ≤ p.priorityCounter + 5) ∧
      (∀ s top rest, prepare false m.time m.scheduler.data = some s →
        (some top, rest) ∈ picks s.scheduledProcesses →
          6 - top.process.priority.toNat ≤ top.priorityCounter) ∧
      ∀ p ∈ m.scheduler.data.scheduledProcesses, ∀ actions m', (∀ a ∈ actions, a ≠ .stop) →
        runCalls step (fun _ _ => true) m actions = some m' →
        p.process.id ∉ actions.flatMap takenBy →
          ∀ other, (actions.flatMap takenBy).count other ≤ 6 := by
  have fair := queue_of_running reached
  have entry : ∀ p ∈ m.scheduler.data.scheduledProcesses,
      (p.process.id, p.priorityCounter) ∈ m.scheduler.data.queue.entries := fun p mem =>
    List.mem_map_of_mem mem
  have level : ∀ p ∈ m.scheduler.data.scheduledProcesses,
      p.priorityCounter ∈ m.scheduler.data.queue.levels := fun p mem =>
    mem_levels_of_entry (entry p mem)
  refine ⟨?_, ?_, ?_, ?_⟩
  · intro p first q second
    exact fair.close _ (level p first) _ (level q second)
  · intro p mem
    exact ⟨fair.close _ (level p mem) _ List.mem_cons_self,
      fair.close _ List.mem_cons_self _ (level p mem)⟩
  · intro s top rest prepared legal
    have enough := counter_of_prepared prepared legal
    unfold minPriorityValue at enough
    omega
  · intro p mem actions m' going run apart other
    exact fair.count_le (entry p mem) (path_of_runCalls reached going run) apart

/-- The init process runs while two children that it has started wait. -/
def twoWait : List Action :=
  [.push 0 userContext, .schedule (some initProcess, []) kernelContext, .push 0 userContext,
    .push 0 userContext]

theorem fair_twoWait :
    ∃ m, Running m ∧ m.scheduler.data.scheduledProcesses.length = 2 ∧
      ∀ p ∈ m.scheduler.data.scheduledProcesses, ∀ q ∈ m.scheduler.data.scheduledProcesses,
        p.priorityCounter ≤ q.priorityCounter + 5 := by
  obtain ⟨m, reached, two⟩ : ∃ m, Running m ∧ m.scheduler.data.scheduledProcesses.length = 2 :=
    Reachable.exists_of_run rfl twoWait (by decide +kernel)
  exact ⟨m, reached, two, (fair_of_running reached).1⟩

end Machine

end Emerald
