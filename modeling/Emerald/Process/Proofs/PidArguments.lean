
import Emerald.Process.Proofs.SleepDeadlines

/-!
# Pids from user space

`sys_priority` and `sys_wait_pid` take any pid. `with_process` panics if no process has it.
`is_process_running` finds the caller itself, so that a process may wait for its own end, and the
process it finds may have exited before the caller waits. Apart from that, and from exit codes that
cannot be returned, every stage of the calls does what it is for and no more.
-/

namespace Emerald
variable {l : List SchedulerProcess}

/-- The pid of the process that a stage may give another priority. -/
def Machine.PidStage.target : PidStage → Option Nat
  | .withProcess pid _ => some pid
  | _ => none

namespace Scheduler

section
variable {pid : Option Nat} {key : Nat} {s s' : Scheduler} {p p' : SchedulerProcess}

/-- No process gets another priority, except the one with this pid if there is one. -/
def OthersKeepPriority (pid : Option Nat) (s s' : Scheduler) : Prop :=
  ∀ q' ∈ s'.live, q'.process.id ∉ pid →
    ∃ q ∈ s.live, q.process.id = q'.process.id ∧ q.process.priority = q'.process.priority

/-- A process waits for a pid if it did so before, or if it is the one of another live process. -/
def WaitsForLive (s s' : Scheduler) : Prop :=
  ∀ key p' q, s'.runningWaitingProcs.get? key = some p' → p'.state = .waitingForPid q →
    (∃ p, s.runningWaitingProcs.get? key = some p ∧ p.state = .waitingForPid q) ∨
      (q ∈ s.livePids ∧ q ≠ key)

/-- A change that leaves the states alone, and the priorities of the others. -/
structure Mild (pid : Option Nat) (s s' : Scheduler) : Prop where
  priorities : OthersKeepPriority pid s s'
  states : ∀ key p', s'.runningWaitingProcs.get? key = some p' →
    ∃ p, s.runningWaitingProcs.get? key = some p ∧ p.state = p'.state

theorem Mild.refl (pid : Option Nat) (s : Scheduler) : Mild pid s s :=
  ⟨fun q mem _ => ⟨q, mem, rfl, rfl⟩, fun _ p found => ⟨p, found, rfl⟩⟩

theorem Mild.waits (mild : Mild pid s s') : WaitsForLive s s' := by
  intro key p' q found waits
  obtain ⟨p, before, state⟩ := mild.states key p' found
  exact .inl ⟨p, before, state.trans waits⟩

/-- A stage that keeps the call finite, and whose effect is confined to what it is for. -/
structure Contained (stage : Machine.PidStage) (rest : Option Machine.PidStage) (s s' : Scheduler) :
    Prop where
  shorter : ∀ next ∈ rest, next.turns < stage.turns
  priorities : OthersKeepPriority stage.target s s'
  waits : WaitsForLive s s'

theorem Mild.contained {stage : Machine.PidStage} {rest : Option Machine.PidStage}
    (mild : Mild pid s s') (target : pid = stage.target)
    (shorter : ∀ next ∈ rest, next.turns < stage.turns) : Contained stage rest s s' :=
  ⟨shorter, target ▸ mild.priorities, mild.waits⟩

section
variable (found : s.runningWaitingProcs.get? key = some p)
include found

/-- One entry written, with the pid and the priority it had. -/
theorem OthersKeepPriority.putProc (id : p'.process.id = p.process.id)
    (level : p'.process.priority = p.process.priority) :
    OthersKeepPriority pid s (s.putProc key p') := by
  intro q mem other
  cases List.mem_cons.mp ((live_putProc s key p').mem_iff.mp mem) with
  | inl here =>
    subst here
    exact ⟨p, mem_live_of_get? found, id.symm, level.symm⟩
  | inr there => exact ⟨q, mem_live_of_dropProc found there, rfl, rfl⟩

theorem mild_putProc (id : p'.process.id = p.process.id) (state : p'.state = p.state)
    (level : p'.process.priority = p.process.priority) : Mild pid s (s.putProc key p') := by
  refine ⟨.putProc found id level, ?_⟩
  intro k q there
  rw [Scheduler.putProc, SortedMap.get?_insert] at there
  split at there
  · rename_i same
    subst same
    cases there
    exact ⟨p, found, state.symm⟩
  · exact ⟨q, there, rfl⟩

/-- The current process put back on the heap. -/
theorem mild_yield {frame : ProcessContext} :
    Mild pid s ((s.dropProc key).rescheduleProcess false (p.saved frame)) := by
  refine ⟨?_, ?_⟩
  · intro q mem other
    cases List.mem_cons.mp mem with
    | inl here =>
      subst here
      exact ⟨p, mem_live_of_get? found, rfl, rfl⟩
    | inr there => exact ⟨q, mem_live_of_dropProc found there, rfl, rfl⟩
  · intro k q there
    exact ⟨q, (SortedMap.get?_erase_eq_some.mp there).2, rfl⟩

end

/-- The process with the pid gets another priority. -/
theorem Rewritten.mild (rewritten : Rewritten key s s') : Mild (some key) s s' := by
  refine ⟨?_, ?_⟩
  · intro q' mem other
    obtain ⟨q, present, level, rfl, keeps⟩ := rewritten.mem_live mem
    have another : q.process.id ≠ key := fun same => other (congrArg some same.symm)
    exact ⟨q, present, rfl, by rw [keeps another]⟩
  · intro key p' found
    obtain ⟨p, here, level, rfl, -⟩ := rewritten.get? found
    exact ⟨p, here, rfl⟩

theorem changeFirst_isSome {f : Process → Process} (found : p ∈ l) :
    (Machine.changeFirst p.process.id f l).isSome := by
  induction l with
  | nil => cases found
  | cons q rest ih =>
    rw [Machine.changeFirst]
    split
    · rfl
    · rename_i other
      rw [Option.isSome_map]
      cases List.mem_cons.mp found with
      | inl here =>
        subst here
        simp at other
      | inr later => exact ih later

end

end Scheduler

namespace Machine

open Scheduler Process

/-! ## The stages -/

section
variable {α : Type} {m : Machine} {p : SchedulerProcess} {frame : ProcessContext} {pid : Nat}

/-- The live processes are found, and the others are not. -/
theorem changeProcess_isSome_iff {next : Nat} {s : Scheduler} (wf : Wf next s)
    (f : Process → α × Process) : (changeProcess pid f s).isSome ↔ pid ∈ s.livePids := by
  cases found : s.runningWaitingProcs.get? pid with
  | some q =>
    have live : pid ∈ s.livePids :=
      List.mem_map.mpr ⟨q, mem_live_of_get? found, wf.id_eq found⟩
    simp only [changeProcess, found, Option.isSome_some, live]
  | none =>
    cases first : s.scheduledProcesses.find? (·.process.id == pid) with
    | none =>
      simp only [changeProcess, found, first, Option.bind_eq_bind, Option.bind_none,
        Option.isSome_none, Bool.false_eq_true, false_iff]
      intro live
      obtain ⟨q, mem, id⟩ := List.mem_map.mp live
      cases mem_live.mp mem with
      | inl inHeap => exact absurd id (by simpa using List.find?_eq_none.mp first q inHeap)
      | inr inMap =>
        obtain ⟨entry, present, rfl⟩ := inMap
        have here := s.runningWaitingProcs.get?_eq_some_iff.mpr present
        rw [← wf.keyed entry present, id, found] at here
        cases here
    | some q =>
      have id : q.process.id = pid := by simpa using List.find?_some first
      have mem := List.mem_of_find?_eq_some first
      have live : pid ∈ s.livePids := List.mem_map.mpr ⟨q, mem_live.mpr (.inl mem), id⟩
      obtain ⟨l, changed⟩ := Option.isSome_iff_exists.mp
        (changeFirst_isSome (f := fun process => (f process).2) mem)
      rw [id] at changed
      simp only [changeProcess, found, first, changed, some_bind, Option.isSome_some, live]

/-- The stage does not panic, and is contained. -/
def PidStage.RunsContained (frame : ProcessContext) (m : Machine) (stage : PidStage) : Prop :=
  ∃ rest m', stage.run frame m = some (rest, m') ∧
    Contained stage rest m.scheduler.data m'.scheduler.data

section
variable (calling : Calling m p frame)
include calling

/-- `with_process` panics for a pid that no process has. -/
theorem withProcess_contained_iff (level : Option PriorityLevel) :
    (PidStage.withProcess pid level).RunsContained frame m ↔
      m.cpu.Pushable 1 ∧ pid ∈ m.scheduler.data.livePids := by
  rw [← changeProcess_isSome_iff calling.wf (givePriority level)]
  simp only [PidStage.RunsContained, PidStage.run, bind_eq_some, Prod.exists]
  constructor
  · intro done
    obtain ⟨rest, m', ⟨priority, a, changed, -⟩, -⟩ := done
    obtain ⟨cpu, cpu', s', -, body, -⟩ := locked_spec changed
    obtain ⟨result, found, -⟩ := Option.map_eq_some_iff.mp body
    exact ⟨pushable_of_locked changed, by rw [found]; rfl⟩
  · intro condition
    obtain ⟨room, found⟩ := condition
    obtain ⟨⟨priority, s'⟩, changed⟩ := Option.isSome_iff_exists.mp found
    let body (cpu : Cpu) (s : Scheduler) :=
      (changeProcess pid (givePriority level) s).map fun changed => (changed.1, cpu, changed.2)
    have runs (cpu : Cpu) (_ : cpu.processId = m.cpu.processId) :
        body cpu m.scheduler.data = some (priority, cpu, s') := by simp [body, changed]
    obtain ⟨a, done, data, -⟩ := locked_total calling.free room runs
    refine ⟨_, a, ⟨priority, a, done, rfl⟩, ?_⟩
    rw [data]
    have mild := (calling.wf.reprioritised ⟨priority, changed⟩).mild
    exact mild.contained rfl (by simp [PidStage.turns])

theorem takeChildExit_contained_iff (block : Bool) :
    (PidStage.takeChildExit pid block).RunsContained frame m ↔ m.cpu.Pushable 1 := by
  simp only [PidStage.RunsContained, PidStage.run, bind_eq_some, Prod.exists]
  constructor
  · intro done
    obtain ⟨rest, m', ⟨exit, a, taken, -⟩, -⟩ := done
    simp only [takeChildExit, withCurrentProcessAndState] at taken
    exact pushable_of_locked taken
  · intro room
    obtain ⟨a, taken, -, -, data, -⟩ := calling.takeChildExit room pid
    have mild : Mild none m.scheduler.data a.scheduler.data := by
      rw [data]
      exact mild_putProc calling.current.1 rfl rfl rfl
    cases recorded : p.process.childrenExits.get? pid with
    | some code | none =>
      exact ⟨_, a, ⟨_, a, taken, by rw [recorded]⟩, mild.contained rfl (by simp [PidStage.turns])⟩

theorem look_contained_iff (block : Bool) :
    (PidStage.look pid block).RunsContained frame m ↔ m.cpu.Pushable 1 := by
  simp only [PidStage.RunsContained, PidStage.run, bind_eq_some, Prod.exists]
  constructor
  · intro done
    obtain ⟨rest, m', ⟨exit, a, looked, -⟩, -⟩ := done
    exact pushable_of_locked looked
  · intro room
    obtain ⟨a, looked, -, -, data, -⟩ := calling.isProcessRunning room pid
    have mild : Mild none m.scheduler.data a.scheduler.data := data ▸ .refl _ _
    by_cases live : pid ∈ m.scheduler.data.livePids
    · refine ⟨_, a, ⟨_, a, looked, if_pos (decide_eq_true live)⟩, mild.contained rfl ?_⟩
      cases block <;> simp [PidStage.turns]
    · refine ⟨_, a, ⟨_, a, looked, if_neg ?_⟩, mild.contained rfl (by simp [PidStage.turns])⟩
      simpa using live

/-- A process waits for the pid it is given, whatever has become of the process it had. -/
theorem wait_contained_iff :
    (PidStage.wait pid).RunsContained frame m ↔
      m.cpu.Pushable 2 ∧ pid ∈ m.scheduler.data.livePids ∧ pid ≠ m.cpu.processId := by
  have total := suspendCurrentProcess_isSome_iff calling.free calling.current calling.user.2.1
    (.waitingForPid pid) frame
  rw [← total]
  cases suspended : suspendCurrentProcess (.waitingForPid pid) frame m with
  | none => simp [PidStage.RunsContained, PidStage.run, suspended]
  | some done =>
    obtain ⟨kernel, c⟩ := done
    obtain ⟨q, current, -, data⟩ := suspendCurrentProcess_spec suspended
    simp only [PidStage.RunsContained, PidStage.run, suspended, some_bind, Option.some.injEq,
      Prod.mk.injEq, Option.isSome_some, true_and]
    constructor
    · intro contained
      obtain ⟨rest, m', ⟨-, rfl⟩, -, -, waits⟩ := contained
      have waiting : c.scheduler.data.runningWaitingProcs.get? m.cpu.processId =
          some { q.saved frame with state := .waitingForPid pid } := by
        rw [data]
        exact SortedMap.get?_insert_self _ _ _
      cases waits _ _ pid waiting rfl with
      | inr live => exact live
      | inl already =>
        obtain ⟨before, found, state⟩ := already
        cases found.symm.trans current.1
        rw [current.2] at state
        cases state
    · intro condition
      refine ⟨_, _, ⟨rfl, rfl⟩, by simp, ?_, ?_⟩
      · show OthersKeepPriority none m.scheduler.data c.scheduler.data
        rw [data]
        exact .putProc current.1 rfl rfl
      · intro key p' wanted found waits
        change c.scheduler.data.runningWaitingProcs.get? key = some p' at found
        rw [data, Scheduler.putProc, SortedMap.get?_insert] at found
        split at found
        · rename_i same
          cases found
          cases waits
          exact .inr (same ▸ condition)
        · exact .inl ⟨p', found, waits⟩

/-- Only an exit code may have the bit that marks an error. -/
def PidResult.Fits : PidResult → Prop
  | .exitCode code => code.msb = false
  | _ => True

omit calling in
theorem PidResult.encoded_iff (result : PidResult) :
    (syscallResultToU64 result.toResult).isSome ↔ result.Fits := by
  cases result with
  | priority level => cases level <;> exact iff_of_true rfl trivial
  | exitCode code =>
    rw [PidResult.toResult, syscallResultToU64_ok, msb_signExtend]
    cases negative : code.msb <;> simp [Fits, negative]
  | _ => exact iff_of_true rfl trivial

theorem finish_contained_iff (result : PidResult) :
    (PidStage.finish result).RunsContained frame m ↔ m.cpu.Pushable 2 ∧ result.Fits := by
  rw [← result.encoded_iff]
  cases encoded : syscallResultToU64 result.toResult with
  | none => simp [PidStage.RunsContained, PidStage.run, encoded]
  | some rax =>
    have total := yieldCurrentIfAny_isSome_iff calling.free calling.current calling.user.2.1
      calling.user.2.2 { frame with rax := rax }
    simp only [Option.isSome_some, and_true, ← total]
    cases yielded : yieldCurrentIfAny { frame with rax := rax } m with
    | none => simp [PidStage.RunsContained, PidStage.run, encoded, yielded]
    | some done =>
      obtain ⟨kernel, a⟩ := done
      obtain ⟨q, current, -, data⟩ :=
        yieldCurrentIfAny_spec yielded calling.user.2.1 calling.user.2.2
      have mild : Mild none m.scheduler.data a.scheduler.data := by
        rw [data, calling.running]
        exact mild_yield current.1
      simp only [PidStage.RunsContained, PidStage.run, encoded, yielded, some_bind,
        Option.some.injEq, Prod.mk.injEq, Option.isSome_some, iff_true]
      exact ⟨_, _, ⟨rfl, rfl⟩, mild.contained rfl (by simp)⟩

end

end

/-! ## The stages of a whole call -/

namespace History

theorem running_of_reached : ∀ h, Reached h → Running h.machine := by
  refine Reachable.invariant ?_ ?_
  · rintro h rfl
    exact .start rfl
  · intro h a h' reached going stepped
    obtain ⟨m, taken, rfl⟩ := Option.map_eq_some_iff.mp stepped
    exact .call a reached going taken

/-- No pid is given twice. -/
theorem pushed_distinct {h : History} (reached : Reached h) :
    h.pushed.Nodup ∧ ∀ pid ∈ h.pushed, pid < h.machine.nextProcessId := by
  induction reached with
  | start first =>
    rw [first]
    exact ⟨List.nodup_nil, by simp [start]⟩
  | call a reached going stepped ih =>
    rename_i h h'
    obtain ⟨distinct, below⟩ := ih
    obtain ⟨m, taken, rfl⟩ := Option.map_eq_some_iff.mp stepped
    obtain ⟨-, -, next, -⟩ := step_effect (inv_of_reached h reached).running going taken
    rw [next]
    cases a with
    | push parentId context =>
      have fresh : h.machine.nextProcessId ∉ h.pushed :=
        fun mem => lt_irrefl _ (below _ mem)
      refine ⟨List.nodup_cons.mpr ⟨fresh, distinct⟩, ?_⟩
      intro pid mem
      cases List.mem_cons.mp mem with
      | inl new => exact new ▸ Nat.lt_succ_self _
      | inr old => exact Nat.lt_succ_of_lt (below pid old)
    | dropPid => exact ⟨distinct, fun pid mem => Nat.lt_succ_of_lt (below pid mem)⟩
    | _ => exact ⟨distinct, below⟩

/-- The live processes are the ones that were started and have not exited. -/
theorem mem_livePids_iff {h : History} (reached : Reached h) {pid : Nat} :
    pid ∈ h.machine.scheduler.data.livePids ↔ pid ∈ h.pushed ∧ pid ∉ h.exited := by
  have pids := (inv_of_reached h reached).pids
  have apart := List.disjoint_of_nodup_append (pids.nodup_iff.mpr (pushed_distinct reached).1)
  constructor
  · intro live
    exact ⟨pids.mem_iff.mp (List.mem_append_right _ live), fun exited => apart exited live⟩
  · intro started
    exact (List.mem_append.mp (pids.mem_iff.mpr started.1)).resolve_left started.2

end History

/-- A process within a call with a pid: the next stage, and the system. -/
structure PidCall where
  stage : PidStage
  history : History

namespace PidCall
variable (caller : Nat) (frame : ProcessContext)

/-- The caller has the processor. -/
def Ready (c : PidCall) : Prop :=
  fromUser frame c.history.machine ∧ c.history.machine.cpu.processId = caller

instance (c : PidCall) : Decidable (c.Ready caller frame) := inferInstanceAs (Decidable (_ ∧ _))

/-- The next stage of the call, or a step of the system. -/
def step (c : PidCall) : Option Action → Option PidCall
  | none => do
    let (rest, m) ← c.stage.run frame c.history.machine
    let stage ← rest
    some ⟨stage, { c.history with machine := m }⟩
  | some a => (c.history.step a).map fun h => ⟨c.stage, h⟩

/-- The caller goes on when it has the processor, and until then anything but a shutdown may
happen. -/
def Allowed (c : PidCall) : Option Action → Prop
  | none => c.Ready caller frame
  | some a => a ≠ .stop

instance (c : PidCall) : DecidablePred (c.Allowed caller frame)
  | none => inferInstanceAs (Decidable (c.Ready caller frame))
  | some a => inferInstanceAs (Decidable (a ≠ .stop))

/-- The start of a call. -/
def Start (c : PidCall) : Prop :=
  c.history.Reached ∧ c.Ready caller frame ∧
    ∃ rcx rdx, c.stage = .priorityStart rcx rdx ∨ c.stage = .waitPidStart rcx rdx

/-- The states within a call of the process with the pid `caller` and the registers `frame`. -/
def InCall : PidCall → Prop :=
  Reachable (fun c event c' => c.step frame event = some c') (Allowed caller frame)
    (Start caller frame)

end PidCall

/-- How many calls of `push_cli` are within each other in a stage. -/
def PidStage.depth : PidStage → Nat
  | .wait _ | .finish _ => 2
  | _ => 1

/-- The stages that meet the expectations of the kernel: `sys_priority` is for a process that was
started and has not exited, the process that `wait_for_pid` has found has not exited either and is
not the caller, and no negative exit code is returned. -/
def PidStage.Safe (caller : Nat) (h : History) : PidStage → Prop
  | .withProcess pid _ => pid ∈ h.pushed ∧ pid ∉ h.exited
  | .wait pid => pid ∉ h.exited ∧ pid ≠ caller
  | .finish result => result.Fits
  | _ => True

namespace PidCall
variable {caller : Nat} {frame : ProcessContext} {c : PidCall}

theorem Ready.calling (ready : c.Ready caller frame) (reached : c.history.Reached) :
    ∃ p, Calling c.history.machine p frame := by
  obtain ⟨running, wf, one, -⟩ := History.inv_of_reached _ reached
  obtain ⟨p, current⟩ := one.current ready.1.2.1
  exact ⟨p, ready.1, current,
    unlocked_of_running _ (History.running_of_reached _ reached), running, wf⟩

/-- A stage that is not the last one is a step of the system. -/
theorem step_stage (reached : c.history.Reached) (ready : c.Ready caller frame) {c' : PidCall}
    (stepped : c.step frame none = some c') : c'.history.Reached ∧
      ∀ pid, c'.stage = .wait pid → pid ∈ c'.history.pushed := by
  obtain ⟨p, calling⟩ := ready.calling reached
  obtain ⟨stage, h⟩ := c
  have reach : ∀ a m, a ≠ .stop → h.machine.exitedBy a = [] → h.machine.pushedBy a = [] →
      h.machine.step a = some m → History.Reached { h with machine := m } := by
    intro a m going exited pushed taken
    refine .call a reached going ?_
    rw [History.step, taken, exited, pushed]
    rfl
  simp only [step, bind_eq_some, Prod.exists] at stepped
  obtain ⟨rest, m, ran, next, rfl, ended⟩ := stepped
  cases ended
  cases stage with
  | withProcess pid level =>
    simp only [PidStage.run, bind_eq_some, Prod.exists] at ran
    obtain ⟨priority, b, changed, ended⟩ := ran
    cases ended
    refine ⟨reach (.setPriority pid level) _ (by simp) rfl rfl ?_, by simp⟩
    rw [Machine.step, changed]
    rfl
  | takeChildExit pid block =>
    simp only [PidStage.run, bind_eq_some, Prod.exists] at ran
    obtain ⟨exit, b, taken, ended⟩ := ran
    have stepped : h.machine.step (.takeChildExit pid) = some b := by
      rw [Machine.step, taken]
      rfl
    have after := reach _ _ (by simp) rfl rfl stepped
    cases exit <;> cases ended <;> exact ⟨after, by simp⟩
  | look pid block =>
    simp only [PidStage.run, bind_eq_some, Prod.exists] at ran
    obtain ⟨found, b, looked, ended⟩ := ran
    have stepped : h.machine.step (.look pid) = some b := by
      rw [Machine.step, looked]
      rfl
    have after := reach _ _ (by simp) rfl rfl stepped
    obtain ⟨a, looked', -⟩ := calling.isProcessRunning (pushable_of_locked looked) pid
    cases looked.symm.trans looked'
    by_cases live : pid ∈ h.machine.scheduler.data.livePids
    · have started := ((History.mem_livePids_iff reached).mp live).1
      simp only [live, decide_true, if_true] at ended
      cases ended
      refine ⟨after, fun wanted waits => ?_⟩
      split at waits
      · cases waits
        exact started
      · cases waits
    · simp only [live, decide_false, Bool.false_eq_true, if_false] at ended
      cases ended
      exact ⟨after, by simp⟩
  | wait pid =>
    simp only [PidStage.run, bind_eq_some] at ran
    obtain ⟨done, suspended, ended⟩ := ran
    cases ended
  | finish result =>
    simp only [PidStage.run, bind_eq_some] at ran
    obtain ⟨rax, encoded, done, yielded, ended⟩ := ran
    cases ended

theorem InCall.inv (reached : InCall caller frame c) :
    c.history.Reached ∧ ∀ pid, c.stage = .wait pid → pid ∈ c.history.pushed := by
  induction reached with
  | start first =>
    obtain ⟨reached, -, rcx, rdx, stage⟩ := first
    refine ⟨reached, fun pid waits => ?_⟩
    cases stage with
    | inl priority =>
      rw [priority, PidStage.priorityStart] at waits
      split at waits <;> cases waits
    | inr wait =>
      rw [wait] at waits
      cases waits
  | call event reached allowed stepped inv =>
    cases event with
    | none => exact step_stage inv.1 allowed stepped
    | some a =>
      obtain ⟨h, taken, rfl⟩ := Option.map_eq_some_iff.mp stepped
      refine ⟨.call a inv.1 allowed taken, fun pid waits => ?_⟩
      obtain ⟨m, -, rfl⟩ := Option.map_eq_some_iff.mp taken
      exact List.mem_append_right _ (inv.2 pid waits)

/-- In every state within a call, the next stage does not panic and the call stays finite, no
process but the one with the pid gets another priority and the caller waits only for another live
process, exactly if `push_cli` can be called as the stage calls it, and the stage is safe. -/
theorem stage_contained_iff (inCall : InCall caller frame c) (ready : c.Ready caller frame) :
    (∃ rest m', c.stage.run frame c.history.machine = some (rest, m') ∧
      Contained c.stage rest c.history.machine.scheduler.data m'.scheduler.data) ↔
      c.history.machine.cpu.Pushable c.stage.depth ∧ c.stage.Safe caller c.history := by
  obtain ⟨reached, found⟩ := inCall.inv
  obtain ⟨p, calling⟩ := ready.calling reached
  obtain ⟨stage, h⟩ := c
  have live (pid : Nat) := @History.mem_livePids_iff h reached pid
  cases stage with
  | withProcess pid level =>
    exact (withProcess_contained_iff calling level).trans (and_congr_right' (live pid))
  | takeChildExit pid block =>
    exact (takeChildExit_contained_iff calling block).trans (and_iff_left trivial).symm
  | look pid block => exact (look_contained_iff calling block).trans (and_iff_left trivial).symm
  | wait pid =>
    have still : pid ∈ h.machine.scheduler.data.livePids ↔ pid ∉ h.exited :=
      (live pid).trans (and_iff_right (found pid rfl))
    have own : h.machine.cpu.processId = caller := ready.2
    exact (wait_contained_iff calling).trans (by rw [still, own]; rfl)
  | finish result => exact finish_contained_iff calling result

/-- The init process has started a child. -/
def childStarted : History :=
  (runCalls History.step (fun _ a => a ≠ .stop) .start
    [.push 0 userContext, .schedule (some initProcess, []) kernelContext,
      .push 0 userContext]).getD .start

theorem start_childStarted {stage : PidStage}
    (first : ∃ rcx rdx, stage = .priorityStart rcx rdx ∨ stage = .waitPidStart rcx rdx) :
    Start 0 userContext ⟨stage, childStarted⟩ := by
  refine ⟨?_, ?_, first⟩
  · show History.Reached childStarted
    exact .of_runCalls (fun _ a => a ≠ .stop) (fun _ _ going => by simpa using going)
      [.push 0 userContext, .schedule (some initProcess, []) kernelContext, .push 0 userContext]
      (.start rfl) (by decide +kernel)
  · show fromUser userContext childStarted.machine ∧ childStarted.machine.cpu.processId = 0
    decide +kernel

/-- The child, the init process when the timer has interrupted its call, and then again when the
child has yielded or has exited. -/
def childProcess : SchedulerProcess :=
  { process := newProcess 1 0 userContext, state := .scheduled, priorityCounter := u64Max - 3 }

def initInside : SchedulerProcess :=
  { process := newProcess 0 0 kernelContext, state := .scheduled, priorityCounter := u64Max - 3 }

def initTold : SchedulerProcess :=
  { initInside with process := { initInside.process with
      childrenExits := SortedMap.empty.insert 1 0#32 } }

/-- The two stages that find the child, after which the timer takes the processor from the call and
the child runs. -/
def interruptedCall : List (Option Action) :=
  [none, none, some (.yield kernelContext),
    some (.schedule (some childProcess, [initInside]) kernelContext)]

/-- The child yields, and the init process waits for it. -/
theorem stage_contained_child : ∃ c, InCall 0 userContext c ∧ c.stage = .wait 1 ∧
    ∃ rest m', c.stage.run userContext c.history.machine = some (rest, m') ∧
      Contained c.stage rest c.history.machine.scheduler.data m'.scheduler.data := by
  obtain ⟨c, inCall, ready, stage, room, alive⟩ : ∃ c, InCall 0 userContext c ∧
      c.Ready 0 userContext ∧ c.stage = .wait 1 ∧ c.history.machine.cpu.Pushable 2 ∧
      1 ∉ c.history.exited :=
    Reachable.exists_of_run (start_childStarted ⟨1#64, 1#64, .inr rfl⟩)
      (interruptedCall ++ [some (.yield userContext), some (.schedule (some initInside,
        [{ childProcess with priorityCounter := u64Max - 6 }]) kernelContext)])
      (by decide +kernel)
  refine ⟨c, inCall, stage, (stage_contained_iff inCall ready).mpr ?_⟩
  rw [stage]
  exact ⟨room, alive, by decide⟩

/-- The state of a process after the next stage. -/
def stateAfter (frame : ProcessContext) (key : Nat) (c : PidCall) : Option ProcessState := do
  let (_, m) ← c.stage.run frame c.history.machine
  let p ← m.scheduler.data.runningWaitingProcs.get? key
  some p.state

/-- The init process asks for the priority of a process that does not exist, which is a panic, or
waits for itself, or waits for its child, which has exited after it was found. -/
theorem stage_not_contained :
    (∃ c, InCall 0 userContext c ∧ c.Ready 0 userContext ∧
      c.stage.run userContext c.history.machine = none) ∧
    (∃ c, InCall 0 userContext c ∧ c.Ready 0 userContext ∧
      c.stateAfter userContext 0 = some (.waitingForPid 0)) ∧
    ∃ c, InCall 0 userContext c ∧ c.Ready 0 userContext ∧
      c.stateAfter userContext 0 = some (.waitingForPid 1) ∧
      1 ∉ c.history.machine.scheduler.data.livePids := by
  refine ⟨⟨⟨.priorityStart 7#64 0#64, childStarted⟩, .start (start_childStarted ⟨_, _, .inl rfl⟩),
    (start_childStarted ⟨_, _, .inl rfl⟩).2.1, by decide +kernel⟩, ?_, ?_⟩
  · exact Reachable.exists_of_run (start_childStarted ⟨0#64, 1#64, .inr rfl⟩) [none, none]
      (by decide +kernel)
  · exact Reachable.exists_of_run (start_childStarted ⟨1#64, 1#64, .inr rfl⟩)
      (interruptedCall ++ [some (.exit 0#32 userContext),
        some (.schedule (some initTold, []) kernelContext)])
      (by decide +kernel)

end PidCall

end Machine

end Emerald
