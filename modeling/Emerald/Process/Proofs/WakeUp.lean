
import Emerald.Process.Proofs.SchedulerInvariant

/-!
# Exit codes and wake-ups

What becomes of an exited process at the next waking pass, in every state the system reaches
before a shutdown: whether its parent records it, and whether the processes that wait for it are
woken.
-/

namespace Emerald
variable {p : SchedulerProcess} {entry : Nat × SchedulerProcess} {e : Process}

namespace Scheduler

section
variable {next : Nat} {timeNow : ClockTime} {s s' : Scheduler}

theorem Wf.eq_of_pid (wf : Wf next s) {q : SchedulerProcess} (first : p ∈ s.live)
    (second : q ∈ s.live) (same : p.process.id = q.process.id) : p = q :=
  List.inj_on_of_nodup_map (List.nodup_append.mp wf.distinct).1 first second same

/-- What an entry has become after the pass: it stays in the map, or it is in the heap. -/
theorem wake_entry (done : s.tryWakeWaitingProcesses false timeNow = some s')
    (mem : entry ∈ s.runningWaitingProcs.entries) :
    (¬ WakesUp timeNow s.runningWaitingProcs.entries s.exitedProcesses entry ∧
      afterVisit s.runningWaitingProcs.entries s.exitedProcesses entry ∈
        s'.runningWaitingProcs.entries) ∨
    (WakesUp timeNow s.runningWaitingProcs.entries s.exitedProcesses entry ∧
      recorded (unclaimed s.runningWaitingProcs.entries s.exitedProcesses)
        (rescheduled s.maxPriority
          (afterVisit s.runningWaitingProcs.entries s.exitedProcesses entry).2) ∈
        s'.scheduledProcesses) := by
  obtain ⟨-, -, entries, scheduled⟩ := tryWakeWaitingProcesses_eq_some done
  by_cases wakes : WakesUp timeNow s.runningWaitingProcs.entries s.exitedProcesses entry
  · refine .inr ⟨wakes, ?_⟩
    rw [scheduled]
    apply List.mem_map_of_mem
    apply List.mem_append_left
    rw [List.mem_reverse, mem_awakened]
    exact ⟨entry, mem, wakes, rfl⟩
  · refine .inl ⟨wakes, ?_⟩
    rw [entries]
    apply List.mem_map_of_mem
    rw [List.mem_filter]
    refine ⟨mem, ?_⟩
    rw [Bool.not_eq_true', ← Bool.not_eq_true, wokenIn_iff]
    exact wakes

/-- A process in the heap stays there. -/
theorem wake_scheduled (done : s.tryWakeWaitingProcesses false timeNow = some s')
    (mem : p ∈ s.scheduledProcesses) :
    recorded (unclaimed s.runningWaitingProcs.entries s.exitedProcesses) p ∈
      s'.scheduledProcesses := by
  obtain ⟨-, -, -, scheduled⟩ := tryWakeWaitingProcesses_eq_some done
  rw [scheduled]
  exact List.mem_map_of_mem (List.mem_append_right _ mem)

/-! ## Exit codes -/

/-- The parent of the process has it in `children_exits`, with its exit code. -/
def Recorded (s : Scheduler) (e : Process) : Prop :=
  ∃ p ∈ s.live, p.process.id = e.parentId ∧
    p.process.childrenExits.get? e.id = some e.exitCode

instance (s : Scheduler) (e : Process) : Decidable (Recorded s e) :=
  inferInstanceAs (Decidable (∃ p ∈ s.live, _ ∧ _))

/-- The process sleeps and its deadline has not come. -/
def Sleeps (timeNow : ClockTime) (p : SchedulerProcess) : Prop :=
  ∃ t, p.state = .waitingForTime t ∧ ¬ t ≤ timeNow

section
variable (wf : Wf next s)
include wf

section
variable (mem : entry ∈ s.runningWaitingProcs.entries) (exited : e ∈ s.exitedProcesses)
  (parent : e.parentId = entry.2.process.id)
include mem exited parent

/-- No process looks through the exited ones before the parent and takes its child away. -/
theorem Wf.unclaimed_before_parent :
    e ∈ seen s.runningWaitingProcs.entries s.exitedProcesses entry.1 := by
  refine mem_seen.mpr ⟨exited, ?_⟩
  intro other present before
  have differs : e.parentId ≠ other.2.process.id := by
    intro same
    have := wf.eq_of_pid (live_of_entry mem) (live_of_entry present) (parent ▸ same)
    have keys := wf.keyed entry mem
    rw [this, wf.keyed other present] at keys
    omega
  simp [claims, differs]

/-- A parent that looks through the exited processes itself records the child. -/
theorem Wf.recorded_of_absorbs (absorbs : entry.2.absorbs = true) :
    (afterVisit s.runningWaitingProcs.entries s.exitedProcesses entry).2.process.childrenExits.get?
      e.id = some e.exitCode := by
  simp only [afterVisit, SchedulerProcess.visited, absorbs, if_true,
    SchedulerProcess.meets_childrenExits]
  apply Process.get?_withExits_of_mem
  · exact wf.distinct_exited.sublist ((seen_sublist _ _ _).map _)
  · exact wf.unclaimed_before_parent mem exited parent
  · exact parent

end

/-- What is recorded in the first pass is still there after the second. -/
theorem Wf.get?_recorded (exited : e ∈ s.exitedProcesses)
    (known : p.process.childrenExits.get? e.id = some e.exitCode) :
    (recorded (unclaimed s.runningWaitingProcs.entries s.exitedProcesses) p
      ).process.childrenExits.get? e.id = some e.exitCode := by
  by_cases again : ∃ e' ∈ unclaimed s.runningWaitingProcs.entries s.exitedProcesses,
      e'.parentId = p.process.id ∧ e'.id = e.id
  · obtain ⟨e', left, parent, same⟩ := again
    have present := (unclaimed_sublist _ _).subset left
    obtain rfl := List.inj_on_of_nodup_map wf.distinct_exited present exited same
    exact Process.get?_withExits_of_mem
      (wf.distinct_exited.sublist ((unclaimed_sublist _ _).map _)) left parent
  · rw [recorded, Process.get?_withExits_of_forall, known]
    exact fun e' left parent same => again ⟨e', left, parent, same⟩

/-- A child no waiting process has taken away is recorded in its parent in the heap. -/
theorem Wf.recorded_of_unclaimed
    (left : e ∈ unclaimed s.runningWaitingProcs.entries s.exitedProcesses)
    (parent : e.parentId = p.process.id) :
    (recorded (unclaimed s.runningWaitingProcs.entries s.exitedProcesses) p
      ).process.childrenExits.get? e.id = some e.exitCode :=
  Process.get?_withExits_of_mem (wf.distinct_exited.sublist ((unclaimed_sublist _ _).map _)) left
    parent

/-- If the parent does not look through the exited processes itself, nobody takes the child away. -/
theorem Wf.mem_unclaimed (mem : p ∈ s.live) (exited : e ∈ s.exitedProcesses)
    (parent : e.parentId = p.process.id) (idle : p ∈ s.scheduledProcesses ∨ p.absorbs = false) :
    e ∈ unclaimed s.runningWaitingProcs.entries s.exitedProcesses := by
  simp only [unclaimed, List.mem_filter, Bool.not_eq_true', List.any_eq_false]
  refine ⟨exited, fun other present => ?_⟩
  by_cases same : e.parentId = other.2.process.id
  · have equal := wf.eq_of_pid mem (live_of_entry present) (parent ▸ same)
    have quiet : other.2.absorbs = false := by
      rcases idle with inHeap | quiet
      · exact absurd (wf.scheduled p inHeap) (equal ▸ wf.waiting other present)
      · exact equal ▸ quiet
    simp [claims, quiet]
  · simp [claims, same]

section
variable (done : s.tryWakeWaitingProcesses false timeNow = some s') (mem : p ∈ s.live)
  (exited : e ∈ s.exitedProcesses) (parent : e.parentId = p.process.id)
include done mem exited parent

theorem Wf.recorded_of_not_sleeps (awake : ¬ Sleeps timeNow p) : Recorded s' e := by
  rcases mem_live.mp mem with inHeap | ⟨entry, present, rfl⟩
  · refine ⟨_, mem_live.mpr (.inl (wake_scheduled done inHeap)), by simp [recorded, parent], ?_⟩
    exact wf.recorded_of_unclaimed (wf.mem_unclaimed mem exited parent (.inl inHeap)) parent
  · cases absorbs : entry.2.absorbs with
    | true =>
      have known := wf.recorded_of_absorbs present exited parent absorbs
      rcases wake_entry done present with ⟨-, kept⟩ | ⟨-, woken⟩
      · exact ⟨_, live_of_entry kept, by simp [afterVisit, parent], known⟩
      · refine ⟨_, mem_live.mpr (.inl woken), ?_, wf.get?_recorded exited known⟩
        simp [recorded, rescheduled, afterVisit, parent]
    | false =>
      -- neither running nor waiting for a pid: it slept until now
      have wakes : WakesUp timeNow s.runningWaitingProcs.entries s.exitedProcesses entry := by
        unfold SchedulerProcess.absorbs at absorbs
        unfold WakesUp
        cases state : entry.2.state with
        | running | waitingForPid pid => simp [state] at absorbs
        | scheduled => exact absurd state (wf.waiting entry present)
        | waitingForTime t =>
          by_contra early
          exact awake ⟨t, state, early⟩
      rcases wake_entry done present with ⟨stays, -⟩ | ⟨-, woken⟩
      · exact absurd wakes stays
      · refine ⟨_, mem_live.mpr (.inl woken), ?_, ?_⟩
        · simp [recorded, rescheduled, afterVisit, parent]
        · apply wf.recorded_of_unclaimed (wf.mem_unclaimed mem exited parent (.inr absorbs))
          simp [rescheduled, afterVisit, parent]

theorem Wf.not_recorded_of_sleeps (sleeps : Sleeps timeNow p) : ¬ Recorded s' e := by
  obtain ⟨t, state, early⟩ := sleeps
  rcases mem_live.mp mem with inHeap | ⟨entry, present, rfl⟩
  · simp [wf.scheduled p inHeap] at state
  · have stays : ¬ WakesUp timeNow s.runningWaitingProcs.entries s.exitedProcesses entry := by
      simpa [WakesUp, state] using early
    have unchanged : (afterVisit s.runningWaitingProcs.entries s.exitedProcesses entry).2 =
        entry.2 := by
      simp [afterVisit, SchedulerProcess.visited, SchedulerProcess.absorbs, state]
    rcases wake_entry done present with ⟨-, kept⟩ | ⟨wakes, -⟩
    · rintro ⟨p', present', same, known⟩
      have equal := (wf.wake done).eq_of_pid present' (live_of_entry kept)
        (by rw [same, parent, unchanged])
      rw [equal, unchanged, wf.fresh mem exited] at known
      simp at known
    · exact absurd wakes stays

end

end

/-! ## Waiters -/

/-- The process with this pid has left the map for the heap, with the exit code in `rax`. -/
def Woken (s : Scheduler) (pid : Nat) (e : Process) : Prop :=
  s.runningWaitingProcs.get? pid = none ∧
    ∃ p ∈ s.scheduledProcesses, p.process.id = pid ∧ p.state = .scheduled ∧
      p.process.context.rax = e.exitCode.signExtend 64

instance (s : Scheduler) (pid : Nat) (e : Process) : Decidable (Woken s pid e) :=
  inferInstanceAs (Decidable (_ ∧ ∃ p ∈ s.scheduledProcesses, _ ∧ _ ∧ _))

/-- No process with a smaller pid takes the exited one away: none of those that run or wait for a
pid is its parent. -/
def Untaken (s : Scheduler) (pid : Nat) (e : Process) : Prop :=
  ∀ other ∈ s.runningWaitingProcs.entries, other.1 < pid →
    other.2.absorbs = true → other.2.process.id ≠ e.parentId

instance (s : Scheduler) (pid : Nat) (e : Process) : Decidable (Untaken s pid e) :=
  inferInstanceAs (Decidable (∀ other ∈ s.runningWaitingProcs.entries, _ → _ → _))

theorem Wf.wakesUp_iff (wf : Wf next s) (timeNow : ClockTime) (entry : Nat × SchedulerProcess)
    (exited : e ∈ s.exitedProcesses) (waits : entry.2.state = .waitingForPid e.id) :
    WakesUp timeNow s.runningWaitingProcs.entries s.exitedProcesses entry ↔
      Untaken s entry.1 e := by
  simp only [WakesUp, waits]
  constructor
  · rintro ⟨e', exited', same, free⟩ other present before absorbs taken
    obtain rfl := List.inj_on_of_nodup_map wf.distinct_exited exited' exited same
    simpa [claims, absorbs, taken] using free other present before
  · intro free
    refine ⟨e, exited, rfl, fun other present before => ?_⟩
    cases absorbs : other.2.absorbs with
    | false => simp [claims, absorbs]
    | true => simpa [claims, absorbs, eq_comm] using free other present before absorbs

theorem Wf.woken_of_wakesUp (wf : Wf next s)
    (done : s.tryWakeWaitingProcesses false timeNow = some s')
    (mem : entry ∈ s.runningWaitingProcs.entries) (exited : e ∈ s.exitedProcesses)
    (waits : entry.2.state = .waitingForPid e.id)
    (wakes : WakesUp timeNow s.runningWaitingProcs.entries s.exitedProcesses entry) :
    Woken s' entry.1 e := by
  have untaken := (wf.wakesUp_iff timeNow entry exited waits).mp wakes
  rcases wake_entry done mem with ⟨stays, -⟩ | ⟨-, inHeap⟩
  · exact absurd wakes stays
  have seenHere : e ∈ seen s.runningWaitingProcs.entries s.exitedProcesses entry.1 := by
    refine mem_seen.mpr ⟨exited, fun other present before => ?_⟩
    cases absorbs : other.2.absorbs with
    | false => simp [claims, absorbs]
    | true => simpa [claims, absorbs, eq_comm] using untaken other present before absorbs
  have absorbs : entry.2.absorbs = true := by simp [SchedulerProcess.absorbs, waits]
  have pid := wf.keyed entry mem
  refine ⟨?_, _, inHeap, by simp [recorded, rescheduled, afterVisit, pid], rfl, ?_⟩
  · by_contra present
    obtain ⟨q, found⟩ := Option.ne_none_iff_exists'.mp present
    have inMap := s'.runningWaitingProcs.get?_eq_some_iff.mp found
    have wf' := wf.wake done
    have equal := wf'.eq_of_pid (live_of_entry inMap) (mem_live.mpr (.inl inHeap))
      (by simpa [recorded, rescheduled, afterVisit, pid] using wf'.keyed _ inMap)
    apply wf'.waiting _ inMap
    rw [equal]
    rfl
  · simp only [recorded, afterVisit, SchedulerProcess.visited, absorbs]
    rw [(Process.withExits_frame _ _).2.2.1]
    exact SchedulerProcess.meets_rax (wf.distinct_exited.sublist ((seen_sublist _ _ _).map _))
      seenHere waits

theorem not_woken_of_not_wakesUp (done : s.tryWakeWaitingProcesses false timeNow = some s')
    (mem : entry ∈ s.runningWaitingProcs.entries)
    (stays : ¬ WakesUp timeNow s.runningWaitingProcs.entries s.exitedProcesses entry) :
    ¬ Woken s' entry.1 e := by
  rintro ⟨absent, -⟩
  rcases wake_entry done mem with ⟨-, kept⟩ | ⟨wakes, -⟩
  · have found : s'.runningWaitingProcs.get? entry.1 = some _ :=
      s'.runningWaitingProcs.get?_eq_some_iff.mpr kept
    rw [absent] at found
    simp at found
  · exact stays wakes

end

end Scheduler

namespace Machine

open Scheduler

theorem running_of_runCalls (actions : List Action) {m : Machine}
    (run : runCalls step (fun _ a => a ≠ .stop) boot actions = some m) : Running m :=
  Reachable.of_runCalls (fun _ a => a ≠ .stop) (fun _ _ going => by simpa using going) actions
    (.start rfl) run

/-- In every state before a shutdown the next waking pass does not panic, and for every process
that has exited while its parent has not: the parent records it if and only if the parent does not
sleep with its deadline ahead. -/
theorem recorded_iff_not_sleeps {m : Machine} (reached : Running m) {p : SchedulerProcess}
    {e : Process} (member : p ∈ m.scheduler.data.live)
    (exited : e ∈ m.scheduler.data.exitedProcesses) (parent : e.parentId = p.process.id) :
    ∃ s', m.scheduler.data.tryWakeWaitingProcesses m.shutdown m.time = some s' ∧
      (Recorded s' e ↔ ¬ Sleeps m.time p) := by
  obtain ⟨running, wf⟩ := wf_of_running reached
  obtain ⟨s', done⟩ := Option.isSome_iff_exists.mp (wf.tryWake_isSome m.time)
  rw [running]
  refine ⟨s', done, ?_, wf.recorded_of_not_sleeps done member exited parent⟩
  intro known sleeps
  exact wf.not_recorded_of_sleeps done member exited parent sleeps known

/-- A child of the init process, with the counter it gets when it is pushed while that runs. -/
def childProcess (pid : Nat) : SchedulerProcess :=
  { process := newProcess pid 0 userContext, state := .scheduled, priorityCounter := u64Max - 3 }

/-- The exited child in the runs below. -/
def exitedChild : Process := (newProcess 1 0 userContext).exit 7#32

/-- The init process starts a child and sleeps for ten seconds; the child runs and exits. -/
def exitWhileParentSleeps : List Action :=
  [.push 0 userContext, .schedule (some initProcess, []) kernelContext, .push 0 userContext,
    .sleep ⟨0, 10⟩ userContext, .schedule (some (childProcess 1), []) kernelContext,
    .exit 7#32 userContext]

/-- The machine after these actions. -/
def childExited : Machine :=
  (runCalls step (fun _ a => a ≠ .stop) boot exitWhileParentSleeps).getD boot

/-- The init process while it sleeps. -/
def sleepingParent : SchedulerProcess :=
  { initProcess with state := .waitingForTime ⟨0, 10⟩, priorityCounter := u64Max - 3 }

/-- When the next pass only runs after the ten seconds, the exit is recorded. -/
theorem recorded_after_deadline :
    ∃ m s', Running m ∧ exitedChild ∈ m.scheduler.data.exitedProcesses ∧
      m.scheduler.data.tryWakeWaitingProcesses m.shutdown m.time = some s' ∧
      Recorded s' exitedChild := by
  have reached : Running { childExited with time := ⟨0, 10⟩ } :=
    running_of_runCalls (exitWhileParentSleeps ++ [.tick ⟨0, 10⟩]) (by decide +kernel)
  have parent : sleepingParent ∈ childExited.scheduler.data.live := by decide +kernel
  have exited : exitedChild ∈ childExited.scheduler.data.exitedProcesses := by decide +kernel
  obtain ⟨s', done, iff⟩ := recorded_iff_not_sleeps reached parent exited rfl
  refine ⟨_, s', reached, exited, done, iff.mpr ?_⟩
  rintro ⟨t, state, early⟩
  obtain rfl : ⟨0, 10⟩ = t := by simpa [sleepingParent] using state
  exact early (by decide)

/-- Before that the exit is lost: the pass drops the exited child and its parent never hears of
it. -/
theorem exit_lost_while_parent_sleeps :
    Running childExited ∧ sleepingParent ∈ childExited.scheduler.data.live ∧
      exitedChild ∈ childExited.scheduler.data.exitedProcesses ∧
      exitedChild.parentId = sleepingParent.process.id ∧
      ∃ s', childExited.scheduler.data.tryWakeWaitingProcesses false childExited.time = some s' ∧
        ¬ Recorded s' exitedChild ∧ s'.exitedProcesses = [] := by
  refine ⟨running_of_runCalls exitWhileParentSleeps (by decide +kernel), by decide +kernel,
    by decide +kernel, rfl, (childExited.scheduler.data.tryWakeWaitingProcesses false
      childExited.time).getD Scheduler.new, by decide +kernel, by decide +kernel,
    by decide +kernel⟩

/-- In every state before a shutdown the next waking pass does not panic, and a process that waits
for one that has exited is woken with its exit code if and only if none of the running or waiting
processes with a smaller pid is the parent of the exited one. -/
theorem woken_iff_untaken {m : Machine} (reached : Running m) {pid : Nat} {w : SchedulerProcess}
    {e : Process} (member : m.scheduler.data.runningWaitingProcs.get? pid = some w)
    (exited : e ∈ m.scheduler.data.exitedProcesses) (waits : w.state = .waitingForPid e.id) :
    ∃ s', m.scheduler.data.tryWakeWaitingProcesses m.shutdown m.time = some s' ∧
      (Woken s' pid e ↔ Untaken m.scheduler.data pid e) := by
  obtain ⟨running, wf⟩ := wf_of_running reached
  obtain ⟨s', done⟩ := Option.isSome_iff_exists.mp (wf.tryWake_isSome m.time)
  have present := m.scheduler.data.runningWaitingProcs.get?_eq_some_iff.mp member
  have same := wf.wakesUp_iff m.time (pid, w) exited waits
  rw [running]
  refine ⟨s', done, ?_, fun untaken => wf.woken_of_wakesUp done present exited waits
    (same.mpr untaken)⟩
  intro woken
  rw [← same]
  by_contra stays
  exact not_woken_of_not_wakesUp done present stays woken

/-- The init process starts two children and waits for the first; the second child waits for the
first as well; the first one exits. -/
def exitWhileTwoWait : List Action :=
  [.push 0 userContext, .schedule (some initProcess, []) kernelContext, .push 0 userContext,
    .push 0 userContext, .wait 1 userContext,
    .schedule (some (childProcess 2), [childProcess 1]) kernelContext, .wait 1 userContext,
    .schedule (some (childProcess 1), []) kernelContext, .exit 7#32 userContext]

/-- The machine after these actions. -/
def waitedExited : Machine :=
  (runCalls step (fun _ a => a ≠ .stop) boot exitWhileTwoWait).getD boot

/-- The two waiters. -/
def waiter (p : SchedulerProcess) (counter : Nat) : SchedulerProcess :=
  { p with state := .waitingForPid 1, priorityCounter := counter }

/-- The parent has the smallest pid of the waiters and is woken. -/
theorem woken_parent :
    ∃ s', waitedExited.scheduler.data.tryWakeWaitingProcesses false waitedExited.time = some s' ∧
      Woken s' 0 exitedChild := by
  have reached : Running waitedExited := running_of_runCalls exitWhileTwoWait (by decide +kernel)
  have waits : waitedExited.scheduler.data.runningWaitingProcs.get? 0 =
      some (waiter initProcess (u64Max - 3)) := by decide +kernel
  have exited : exitedChild ∈ waitedExited.scheduler.data.exitedProcesses := by decide +kernel
  obtain ⟨s', done, iff⟩ := woken_iff_untaken reached waits exited rfl
  exact ⟨s', done, iff.mpr (by decide +kernel)⟩

/-- The other one is not, and the exited process is gone: it waits for ever. -/
theorem wake_up_lost_behind_parent :
    Running waitedExited ∧
      waitedExited.scheduler.data.runningWaitingProcs.get? 2 =
        some (waiter (childProcess 2) (u64Max - 6)) ∧
      exitedChild ∈ waitedExited.scheduler.data.exitedProcesses ∧
      ∃ s', waitedExited.scheduler.data.tryWakeWaitingProcesses false waitedExited.time = some s' ∧
        ¬ Woken s' 2 exitedChild ∧ s'.exitedProcesses = [] ∧
        s'.runningWaitingProcs.get? 2 = some (waiter (childProcess 2) (u64Max - 6)) := by
  refine ⟨running_of_runCalls exitWhileTwoWait (by decide +kernel), by decide +kernel,
    by decide +kernel, (waitedExited.scheduler.data.tryWakeWaitingProcesses false
      waitedExited.time).getD Scheduler.new, by decide +kernel, by decide +kernel,
    by decide +kernel, by decide +kernel⟩

end Machine

end Emerald
