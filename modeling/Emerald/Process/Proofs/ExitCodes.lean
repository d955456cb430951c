
import Emerald.Process.Proofs.ExitCalls

/-!
# Recorded exits and results over a run

What a step of the system does to the exits that its processes have recorded, and to the registers
of a process on the heap: they are the ones it runs with when it is taken.
-/

namespace Emerald
variable {p' : SchedulerProcess} {pick : Option SchedulerProcess × List SchedulerProcess}

namespace Scheduler

section
variable {timeNow : ClockTime} {s s' : Scheduler}

/-! ## The pass over the processes -/

theorem live_reset : s.resetScheduledProcessesCounters.live.map (·.process) =
    s.live.map (·.process) := by
  simp [live, resetScheduledProcessesCounters]

/-- What the loop has before it takes a process is what the pass leaves. -/
theorem prepare_live (prepared : Machine.prepare false timeNow s = some s') :
    ∃ woken, s.tryWakeWaitingProcesses false timeNow = some woken ∧ s'.exitedProcesses = [] ∧
      ∀ p' ∈ s'.live, ∃ p ∈ woken.live, p'.process = p.process := by
  obtain ⟨woken, done, same⟩ := Machine.prepare_cases prepared
  obtain ⟨gone, -⟩ := tryWakeWaitingProcesses_eq_some done
  cases same with
  | inl same =>
    rw [same.2]
    exact ⟨woken, done, gone, fun p' mem => ⟨p', mem, rfl⟩⟩
  | inr same =>
    rw [same.2]
    refine ⟨woken, done, gone, fun p' mem => ?_⟩
    have process : p'.process ∈ woken.live.map (·.process) := by
      rw [← live_reset]
      exact List.mem_map_of_mem mem
    obtain ⟨p, present, same⟩ := List.mem_map.mp process
    exact ⟨p, present, same.symm⟩

end

end Scheduler

namespace Machine

open Scheduler

section
variable {m m' : Machine} {a : Action}

/-! ## What a step does to the recorded exits -/

/-- The process is one from before the step, with the same exits but for the pid `key` where that
has just exited or is being taken. -/
def SameExits (m : Machine) (a : Action) (p' : SchedulerProcess) : Prop :=
  ∃ p ∈ m.scheduler.data.live, p'.process.id = p.process.id ∧
    ∀ key, (∀ e ∈ m.scheduler.data.exitedProcesses, e.id ≠ key) →
      (a = .takeChildExit key → p.process.id ≠ m.cpu.processId) →
        p'.process.childrenExits.get? key = p.process.childrenExits.get? key

theorem SameExits.of_process {p : SchedulerProcess} (mem : p ∈ m.scheduler.data.live)
    (id : p'.process.id = p.process.id)
    (exits : p'.process.childrenExits = p.process.childrenExits) : SameExits m a p' :=
  ⟨p, mem, id, fun _ _ _ => by rw [exits]⟩

/-- The processes after an iteration of the loop are those after its pass, and none has exited. -/
theorem Pass.live (pass : Pass m m' pick) (wf : Wf m.nextProcessId m.scheduler.data) :
    ∃ woken, m.scheduler.data.tryWakeWaitingProcesses false m.time = some woken ∧
      m'.scheduler.data.exitedProcesses = [] ∧
      ∀ p' ∈ m'.scheduler.data.live, ∃ p ∈ woken.live, p'.process = p.process := by
  cases pass with
  | halt rest free prepared idle run => exact prepare_live prepared
  | run s top rest free prepared legal data on pid =>
    obtain ⟨woken, done, gone, same⟩ := prepare_live prepared
    rw [data]
    refine ⟨woken, done, gone, fun p' mem => ?_⟩
    cases List.mem_cons.mp (((wf.prepare prepared).live_run legal _).mem_iff.mp mem) with
    | inl here =>
      rw [here]
      exact same top ((live_pick legal).mem_iff.mpr List.mem_cons_self)
    | inr there => exact same p' ((live_pick legal).mem_iff.mpr (List.mem_cons_of_mem _ there))

theorem Pass.sameExits (pass : Pass m m' pick) (wf : Wf m.nextProcessId m.scheduler.data)
    (mem : p' ∈ m'.scheduler.data.live) : SameExits m a p' := by
  obtain ⟨woken, done, -, same⟩ := pass.live wf
  obtain ⟨q, present, equal⟩ := same p' mem
  obtain ⟨p, before, id, exits⟩ := wake_live done present
  rw [← equal] at id exits
  exact ⟨p, before, id, fun key other _ => exits key other⟩

/-- Every process after a step was there before, or is the one that is pushed. -/
theorem Effect.sameExits (effect : Effect m a m') (wf : Wf m.nextProcessId m.scheduler.data)
    (mem : p' ∈ m'.scheduler.data.live) :
    p'.process.id = m.nextProcessId ∨ SameExits m a p' := by
  cases effect with
  | same quiet data run =>
    rw [data] at mem
    exact .inr (.of_process mem rfl rfl)
  | push parentId context data run =>
    rw [data] at mem
    cases List.mem_cons.mp mem with
    | inl new => exact .inl (by rw [new]; rfl)
    | inr old => exact .inr (.of_process old rfl rfl)
  | exit exitCode frame p current data off =>
    rw [data] at mem
    exact .inr (.of_process (mem_live_of_dropProc current.1 mem) rfl rfl)
  | suspend p frame state quiet current waits user data off =>
    rw [data] at mem
    cases List.mem_cons.mp ((live_putProc _ _ _).mem_iff.mp mem) with
    | inl here => exact .inr (.of_process (mem_live_of_get? current.1) (by rw [here]; rfl)
        (by rw [here]; rfl))
    | inr there => exact .inr (.of_process (mem_live_of_dropProc current.1 there) rfl rfl)
  | yield frame p current data off =>
    rw [data] at mem
    cases List.mem_cons.mp mem with
    | inl here => exact .inr (.of_process (mem_live_of_get? current.1) (by rw [here]; rfl)
        (by rw [here]; rfl))
    | inr there => exact .inr (.of_process (mem_live_of_dropProc current.1 there) rfl rfl)
  | takeExit pid p current data run =>
    rw [data] at mem
    cases List.mem_cons.mp ((live_putProc _ _ _).mem_iff.mp mem) with
    | inl here =>
      refine .inr ⟨p, mem_live_of_get? current.1, by rw [here]; rfl, fun key _ untaken => ?_⟩
      have id := wf.id_eq current.1
      have other : key ≠ pid := by
        rintro rfl
        exact untaken rfl id
      rw [here]
      exact (SortedMap.get?_erase _ _ _).trans (if_neg other)
    | inr there => exact .inr (.of_process (mem_live_of_dropProc current.1 there) rfl rfl)
  | priority pid level changed run =>
    obtain ⟨p, present, level, rfl, -⟩ := (wf.reprioritised changed).mem_live mem
    exact .inr (.of_process present rfl rfl)
  | schedule frame pass => exact .inr (pass.sameExits wf mem)

/-- A step gives no pid but the next one to the scheduler. -/
theorem Effect.mem_pids (effect : Effect m a m') (wf : Wf m.nextProcessId m.scheduler.data)
    {pid : Nat} (mem : pid ∈ m'.scheduler.data.pids) :
    pid ∈ m.scheduler.data.pids ∨ pid = m.nextProcessId := by
  cases List.mem_append.mp mem with
  | inl alive =>
    obtain ⟨p', present, rfl⟩ := List.mem_map.mp alive
    cases effect.sameExits wf present with
    | inl new => exact .inr new
    | inr old =>
      obtain ⟨p, before, id, -⟩ := old
      rw [id]
      exact .inl (List.mem_append_left _ (List.mem_map_of_mem before))
  | inr exited =>
    have kept : pid ∈ m.scheduler.data.exitedProcesses.map (·.id) →
        pid ∈ m.scheduler.data.pids := fun old => List.mem_append_right _ old
    cases effect with
    | exit exitCode frame p current data off =>
      rw [data] at exited
      simp only [pushExited, List.map_append, List.mem_append] at exited
      cases exited with
      | inl old => exact .inl (kept old)
      | inr new =>
        have id : pid = p.process.id := List.mem_singleton.mp new
        rw [id]
        exact .inl (List.mem_append_left _ (List.mem_map_of_mem (mem_live_of_get? current.1)))
    | priority key level changed run =>
      rw [(wf.reprioritised changed).exited] at exited
      exact .inl (kept exited)
    | schedule frame pass =>
      obtain ⟨woken, done, gone, -⟩ := pass.live wf
      rw [gone] at exited
      cases exited
    | _ =>
      rename_i data _
      rw [data] at exited
      exact .inl (kept exited)

end

/-! ## Runs -/

theorem oneRunning_of_running {m : Machine} (reached : Running m) : OneRunning m := by
  induction reached with
  | start first =>
    rw [first]
    exact History.inv_start.one
  | call a reached going stepped one =>
    obtain ⟨running, wf⟩ := wf_of_running reached
    exact (step_effect running going stepped).1.oneRunning wf one

/-- Every step drops the guard of `SCHEDULER` that it takes. -/
theorem step_unlocked {m m' : Machine} {a : Action} (free : m.scheduler.locked = false)
    (stepped : m.step a = some m') : m'.scheduler.locked = false := by
  cases a with
  | schedule pick frame =>
    simp only [step, schedule, Option.bind_eq_bind, Option.bind_eq_some_iff, Prod.exists] at stepped
    obtain ⟨turn, b, ⟨turn', c, turned, ran⟩, rest⟩ := stepped
    have unlocked : c.scheduler.locked = false := by
      unfold scheduleTurn at turned
      split at turned
      · simp only [Option.bind_eq_bind, Option.bind_eq_some_iff, Prod.exists] at turned
        obtain ⟨leave, d, locked, -, rfl⟩ := turned
        obtain ⟨-, -, s', -, -, -, -, data, -⟩ := locked_spec locked
        rw [data]
      · cases turned
    have kept : b.scheduler.locked = false := by
      cases turn' with
      | run =>
        simp only [Option.ite_none_right_eq_some, Option.bind_eq_some_iff] at ran
        obtain ⟨-, d, interrupted, -, rfl⟩ := ran
        obtain ⟨process, e, handled, rfl⟩ := interrupt_spec interrupted
        obtain ⟨-, rfl⟩ := schedulerInterruptHandler_spec handled
        exact unlocked
      | leave | halt =>
        cases ran
        exact unlocked
    split at rest
    · cases rest
    · cases rest
      exact kept
  | _ => exact (step_outside (by simp) stepped).2.1 free

theorem unlocked_of_running : ∀ m : Machine, Running m → m.scheduler.locked = false := by
  refine Reachable.invariant ?_ ?_
  · rintro m rfl
    rfl
  · exact fun m a m' free _ stepped => step_unlocked free stepped

/-! ## What a process on the heap runs with -/

section
variable {m m' : Machine} {a : Action} {P : BitVec 64 → Prop} {pid : Nat} {timeNow : ClockTime}

theorem OnHeap.wake {s s' : Scheduler} (on : OnHeap P pid s)
    (done : s.tryWakeWaitingProcesses false timeNow = some s') : OnHeap P pid s' := by
  obtain ⟨p, mem, id, holds⟩ := on
  have frame := Process.withExits_frame p.process
    (unclaimed s.runningWaitingProcs.entries s.exitedProcesses)
  refine ⟨_, wake_scheduled done mem, frame.1.trans id, ?_⟩
  rw [recorded, frame.2.2.1]
  exact holds

/-- What the pass puts on the heap is there when the loop takes a process. -/
theorem onHeap_prepare {s s' : Scheduler} (prepared : Machine.prepare false timeNow s = some s')
    (woken : ∀ w, s.tryWakeWaitingProcesses false timeNow = some w → OnHeap P pid w) :
    OnHeap P pid s' := by
  obtain ⟨w, done, same⟩ := prepare_cases prepared
  obtain ⟨p, mem, id, holds⟩ := woken w done
  cases same with
  | inl same =>
    rw [same.2]
    exact ⟨p, mem, id, holds⟩
  | inr same =>
    rw [same.2]
    exact ⟨_, List.mem_map_of_mem mem, id, holds⟩

/-- An iteration of the loop that takes another process leaves it on the heap. -/
theorem Pass.onHeap (pass : Pass m m' pick)
    (woken : ∀ w, m.scheduler.data.tryWakeWaitingProcesses false m.time = some w →
      OnHeap P pid w) (left : ∀ top, pick.1 = some top → top.process.id ≠ pid) :
    OnHeap P pid m'.scheduler.data := by
  cases pass with
  | halt rest free prepared idle run => exact onHeap_prepare prepared woken
  | run s top rest free prepared legal data isOn id =>
    obtain ⟨p, mem, same, holds⟩ := onHeap_prepare prepared woken
    rw [data]
    cases List.mem_cons.mp ((picks_perm legal).mem_iff.mp mem) with
    | inl here =>
      rw [here] at same
      exact absurd same (left top rfl)
    | inr there => exact ⟨p, there, same, holds⟩

/-- The iteration that takes it runs it with the registers it has on the heap. -/
theorem Pass.takes {top : SchedulerProcess} {rest : List SchedulerProcess}
    (pass : Pass m m' (some top, rest)) (wf : Wf m.nextProcessId m.scheduler.data)
    (woken : ∀ w, m.scheduler.data.tryWakeWaitingProcesses false m.time = some w →
      OnHeap P pid w)
    (taken : top.process.id = pid) : P top.process.context.rax := by
  cases pass with
  | run s top rest free prepared legal data isOn id =>
    obtain ⟨p, mem, same, holds⟩ := onHeap_prepare prepared woken
    have here : top ∈ s.live := (live_pick legal).mem_iff.mpr List.mem_cons_self
    have equal := (wf.prepare prepared).eq_of_pid here (mem_live.mpr (.inl mem))
      (taken.trans same.symm)
    rw [equal]
    exact holds

/-- It stays there until it is taken. -/
theorem Effect.onHeap (effect : Effect m a m') (wf : Wf m.nextProcessId m.scheduler.data)
    (on : OnHeap P pid m.scheduler.data) (left : pid ∉ takenBy a) :
    OnHeap P pid m'.scheduler.data := by
  cases effect with
  | priority key level changed run =>
    obtain ⟨p, mem, id, holds⟩ := on
    obtain ⟨p', present, level, rfl, -⟩ := (wf.reprioritised changed).symm.mem_scheduled mem
    exact ⟨p', present, id, holds⟩
  | push parentId context data run | yield frame q current data off =>
    obtain ⟨p, mem, id, holds⟩ := on
    rw [data]
    exact ⟨p, List.mem_cons_of_mem _ mem, id, holds⟩
  | schedule frame pass =>
    refine pass.onHeap (fun w => on.wake) ?_
    intro top picked taken
    cases pass <;> cases picked
    exact left (List.mem_singleton.mpr taken.symm)
  | _ =>
    rename_i data _
    rw [data]
    exact on

/-- The states from here until the process with this pid is taken from the heap. -/
def UntilTaken (pid : Nat) (m : Machine) : Machine → Prop :=
  Reachable (fun m a m' => m.step a = some m') (fun _ a => a ≠ .stop ∧ pid ∉ takenBy a) (· = m)

/-- Whatever happens before a shutdown, the process next runs with such a result in `rax`. -/
def NextRun (P : BitVec 64 → Prop) (pid : Nat) (m : Machine) : Prop :=
  ∀ later, UntilTaken pid m later → ∀ top rest frame m',
    later.step (.schedule (some top, rest) frame) = some m' → top.process.id = pid →
      P top.process.context.rax

/-- A call that has ended resumes with its result. -/
theorem Returned.nextRun (returned : Returned P pid m) : NextRun P pid m := by
  have invariant : ∀ later, UntilTaken pid m later → Returned P pid later := by
    refine Reachable.invariant ?_ ?_
    · rintro later rfl
      exact returned
    · rintro later a later' returned ⟨going, left⟩ stepped
      obtain ⟨running', wf'⟩ := step_wf returned.running returned.wf going stepped
      obtain ⟨effect, -⟩ := step_effect returned.running going stepped
      exact ⟨running', wf', effect.onHeap returned.wf returned.result left⟩
  intro later reached top rest frame m' stepped taken
  obtain ⟨running, wf, result⟩ := invariant later reached
  obtain ⟨pass, -⟩ := step_pass running stepped
  exact pass.takes wf (fun w => result.wake) taken

end

end Machine

end Emerald
