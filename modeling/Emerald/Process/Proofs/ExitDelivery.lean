
import Emerald.Process.Proofs.ExitCodes

/-!
# Exit codes reach the parent

An exit code passes through four places: the result of `sys_exit` itself, the `rax` that the waking
pass gives to a parent that waits, the exits the pass records in a parent that does not, and the
result of a later `sys_wait_pid`. It arrives unless it is negative, which `sys_exit` panics on, or
the parent sleeps through the pass.
-/

namespace Emerald.Machine

open Scheduler

variable {m m' after : Machine}

/-- A child calls `sys_exit` in a state before a shutdown, while its parent lives. -/
structure ChildExit where
  before : Machine
  child : SchedulerProcess
  parent : SchedulerProcess
  rcx : BitVec 64
  frame : ProcessContext
  reached : Running before
  user : fromUser frame before
  current : before.Current child
  alive : parent ∈ before.scheduler.data.live
  isParent : child.process.parentId = parent.process.id
  other : parent.process.id ≠ child.process.id

namespace ChildExit
variable (x : ChildExit) {passing : Machine} {awake : Prop} {a : Action}

/-- The exit code the child passes. -/
def code : BitVec 32 := exitCodeArg x.rcx

/-- The process in `exited_processes`. -/
def process : Process := (x.child.saved x.frame).process.exit x.code

/-- The exit of the child in the scheduler. -/
def Exited (after : Machine) : Prop := x.before.step (.exit x.code x.frame) = some after

/-! ## Before the pass -/

/-- From the exit to the next pass of the scheduler. -/
def BeforePass (after : Machine) : Machine → Prop :=
  Reachable (fun m a m' => m.step a = some m')
    (fun _ a => a ≠ .stop ∧ ∀ pick frame, a ≠ .schedule pick frame) (· = after)

/-- The exit is still to be handled, by a pass that finds the parent as it was. -/
structure Pending (m : Machine) : Prop where
  reached : Running m
  idle : m.cpu.context = none
  exited : x.process ∈ m.scheduler.data.exitedProcesses
  parent : ∃ p ∈ m.scheduler.data.live, p.process.id = x.parent.process.id ∧
    p.state = x.parent.state

/-- Without a process on the processor there is no current one. -/
theorem Pending.not_current (pending : x.Pending m) (p : SchedulerProcess) : ¬ m.Current p := by
  intro current
  have on := ((oneRunning_of_running pending.reached).only _ p current.1 current.2).1
  rw [pending.idle] at on
  cases on

theorem Pending.step (pending : x.Pending m) (going : a ≠ .stop)
    (unscheduled : ∀ pick frame, a ≠ .schedule pick frame) (stepped : m.step a = some m') :
    x.Pending m' := by
  obtain ⟨running, wf⟩ := wf_of_running pending.reached
  have reached : Running m' := .call a pending.reached going stepped
  obtain ⟨p, mem, id, state⟩ := pending.parent
  obtain ⟨effect, -, -⟩ := step_effect running going stepped
  cases effect with
  | same quiet data run =>
    refine ⟨reached, run.context.trans pending.idle, ?_, ?_⟩
    · rw [data]
      exact pending.exited
    · rw [data]
      exact ⟨p, mem, id, state⟩
  | push parentId context data run =>
    refine ⟨reached, run.context.trans pending.idle, ?_, p, ?_, id, state⟩
    · rw [data]
      exact pending.exited
    · rw [data]
      exact List.mem_cons_of_mem _ mem
  | exit exitCode frame q current | suspend q frame state quiet current | yield frame q current
  | takeExit pid q current => exact absurd current (pending.not_current x q)
  | priority pid level changed run =>
    have rewritten := wf.reprioritised changed
    obtain ⟨p', present, level, rfl, -⟩ := rewritten.symm.mem_live mem
    refine ⟨reached, run.context.trans pending.idle, ?_, p', present, id, state⟩
    rw [rewritten.exited]
    exact pending.exited
  | schedule frame pass => exact absurd rfl (unscheduled _ _)

theorem pending_after (exited : x.Exited after) : x.Pending after := by
  have going : Action.exit x.code x.frame ≠ .stop := nofun
  obtain ⟨running, wf⟩ := wf_of_running x.reached
  obtain ⟨effect, -⟩ := step_effect running going exited
  have reached : Running after := .call _ x.reached going exited
  cases effect with
  | same quiet | suspend p frame state quiet => exact absurd quiet.exited (List.cons_ne_nil _ _)
  | exit exitCode frame p current data off =>
    cases x.current.1.symm.trans current.1
    refine ⟨reached, off, ?_, x.parent, ?_, rfl, rfl⟩
    · rw [data]
      exact List.mem_append_right _ (List.mem_singleton_self _)
    · rw [data]
      cases List.mem_cons.mp ((live_dropProc x.current.1).mem_iff.mp x.alive) with
      | inl same => exact absurd (by rw [same]) x.other
      | inr kept => exact kept

theorem pending_of_beforePass (exited : x.Exited after) :
    ∀ m, BeforePass after m → x.Pending m := by
  refine Reachable.invariant ?_ ?_
  · rintro m rfl
    exact x.pending_after exited
  · rintro m a m' pending ⟨going, unscheduled⟩ stepped
    exact pending.step x going unscheduled stepped

/-! ## A parent that already waits -/

section
variable (pending : x.Pending m) (waits : x.parent.state = .waitingForPid x.child.process.id)
include pending waits

/-- The pass wakes the waiting parent with the exit code in `rax`. -/
theorem Pending.woken {w : Scheduler}
    (done : m.scheduler.data.tryWakeWaitingProcesses false m.time = some w) :
    OnHeap (· = x.code.signExtend 64) x.parent.process.id w := by
  obtain ⟨-, wf⟩ := wf_of_running pending.reached
  obtain ⟨p, mem, id, state⟩ := pending.parent
  rw [waits] at state
  cases mem_live.mp mem with
  | inl inHeap =>
    have scheduled := wf.scheduled p inHeap
    rw [state] at scheduled
    cases scheduled
  | inr inMap =>
    obtain ⟨entry, present, rfl⟩ := inMap
    have key := wf.keyed entry present
    have untaken : Untaken m.scheduler.data entry.1 x.process := by
      intro other there before absorbs taken
      have otherKey := wf.keyed other there
      have parent : x.process.parentId = x.parent.process.id := x.isParent
      omega
    have wakes := (wf.wakesUp_iff m.time entry pending.exited state).mpr untaken
    obtain ⟨-, q, awake, qid, -, rax⟩ := wf.woken_of_wakesUp done present pending.exited state wakes
    exact ⟨q, awake, qid.trans (key.symm.trans id), rax⟩

/-- The parent's call ends at the pass, and it resumes with the exit code in `rax`. -/
theorem Pending.nextRun : NextRun (· = x.code.signExtend 64) x.parent.process.id m := by
  have woken : ∀ later, UntilTaken x.parent.process.id m later → Running later ∧
      ∀ w, later.scheduler.data.tryWakeWaitingProcesses false later.time = some w →
        OnHeap (· = x.code.signExtend 64) x.parent.process.id w := by
    have invariant : ∀ later, UntilTaken x.parent.process.id m later → x.Pending later ∨
        Running later ∧
          OnHeap (· = x.code.signExtend 64) x.parent.process.id later.scheduler.data := by
      refine Reachable.invariant ?_ ?_
      · rintro later rfl
        exact .inl pending
      · rintro later a later' kept ⟨going, left⟩ stepped
        cases kept with
        | inl pending =>
          obtain ⟨running, -⟩ := wf_of_running pending.reached
          by_cases scheduled : ∃ pick frame, a = .schedule pick frame
          · obtain ⟨pick, frame, rfl⟩ := scheduled
            obtain ⟨pass, -⟩ := step_pass running stepped
            refine .inr ⟨.call _ pending.reached going stepped, ?_⟩
            refine pass.onHeap (fun w => pending.woken x waits) ?_
            rintro top same taken
            obtain ⟨first, rest⟩ := pick
            cases same
            exact left (List.mem_singleton.mpr taken.symm)
          · refine .inl (pending.step x going ?_ stepped)
            exact fun pick frame same => scheduled ⟨pick, frame, same⟩
        | inr delivered =>
          obtain ⟨running, wf⟩ := wf_of_running delivered.1
          obtain ⟨effect, -⟩ := step_effect running going stepped
          exact .inr ⟨.call _ delivered.1 going stepped, effect.onHeap wf delivered.2 left⟩
    intro later reached
    cases invariant later reached with
    | inl pending => exact ⟨pending.reached, fun w => pending.woken x waits⟩
    | inr delivered => exact ⟨delivered.1, fun w => delivered.2.wake⟩
  intro later reached top rest frame m' stepped taken
  obtain ⟨running, wf⟩ := wf_of_running (woken later reached).1
  obtain ⟨pass, -⟩ := step_pass running stepped
  exact pass.takes wf (woken later reached).2 taken

end

/-! ## A parent that calls after the pass -/

/-- What the parent has recorded about the child, in a state in which the child is gone. -/
structure Known (awake : Prop) (m : Machine) : Prop where
  reached : Running m
  recorded : ∀ p ∈ m.scheduler.data.live, p.process.id = x.parent.process.id →
    (p.process.childrenExits.get? x.child.process.id = some x.code ↔ awake)
  gone : x.child.process.id ∉ m.scheduler.data.pids
  childBelow : x.child.process.id < m.nextProcessId
  parentBelow : x.parent.process.id < m.nextProcessId

/-- From the pass on, as long as the parent does not take the exit. -/
def AfterPass (passed : Machine) : Machine → Prop :=
  Reachable (fun m a m' => m.step a = some m')
    (fun m a => a ≠ .stop ∧
      (a = .takeChildExit x.child.process.id → m.cpu.processId ≠ x.parent.process.id))
    (· = passed)

/-- The pass records the exit in the parent unless that sleeps. -/
theorem Pending.known (pending : x.Pending m)
    {pick : Option SchedulerProcess × List SchedulerProcess} {frame : ProcessContext}
    (passed : m.step (.schedule pick frame) = some m') : x.Known (¬ Sleeps m.time x.parent) m' := by
  obtain ⟨running, wf⟩ := wf_of_running pending.reached
  obtain ⟨pass, clock⟩ := step_pass running passed
  obtain ⟨woken, done, none, same⟩ := pass.live wf
  obtain ⟨p, mem, id, state⟩ := pending.parent
  have parent : x.process.parentId = p.process.id := x.isParent.trans id.symm
  have sleeps : Sleeps m.time p ↔ Sleeps m.time x.parent := by
    unfold Sleeps
    rw [state]
  have below : ∀ pid ∈ m.scheduler.data.pids, pid < m'.nextProcessId := by
    rw [clock.nextProcessId]
    exact wf.below
  refine ⟨.call (.schedule pick frame) pending.reached nofun passed, ?_, ?_, ?_, ?_⟩
  · intro p' present id'
    obtain ⟨q, there, equal⟩ := same p' present
    rw [equal] at id' ⊢
    constructor
    · intro known sleeping
      refine wf.not_recorded_of_sleeps done mem pending.exited parent (sleeps.mpr sleeping) ?_
      exact ⟨q, there, id'.trans x.isParent.symm, known⟩
    · intro awake
      obtain ⟨r, found, rid, known⟩ := wf.recorded_of_not_sleeps done mem pending.exited parent
        (fun sleeping => awake (sleeps.mp sleeping))
      have sameParent : q = r := (wf.wake done).eq_of_pid there found
        (id'.trans (x.isParent.symm.trans rid.symm))
      rw [sameParent]
      exact known
  · intro child
    simp only [pids, none, List.map_nil, List.append_nil] at child
    obtain ⟨p', present, id'⟩ := List.mem_map.mp child
    obtain ⟨q, there, equal⟩ := same p' present
    obtain ⟨r, before, rid, -⟩ := wake_live done there
    -- a live process and an exited one have ne pids
    refine (List.nodup_append.mp wf.distinct).2.2 _ (List.mem_map_of_mem before) _
      (List.mem_map_of_mem pending.exited) ?_
    rw [← rid, ← equal]
    exact id'
  · exact below x.process.id (mem_pids_of_exited pending.exited)
  · rw [← id]
    exact below _ (mem_pids_of_live mem)

theorem Known.step (known : x.Known awake m) (going : a ≠ .stop)
    (untaken : a = .takeChildExit x.child.process.id → m.cpu.processId ≠ x.parent.process.id)
    (stepped : m.step a = some m') : x.Known awake m' := by
  obtain ⟨running, wf⟩ := wf_of_running known.reached
  obtain ⟨effect, -, next, -⟩ := step_effect running going stepped
  have grows : m.nextProcessId ≤ m'.nextProcessId := by
    rw [next]
    cases a with
    | push parentId context | dropPid => exact Nat.le_succ _
    | _ => exact le_rfl
  have childBelow := known.childBelow
  have parentBelow := known.parentBelow
  refine ⟨.call _ known.reached going stepped, ?_, ?_, by omega, by omega⟩
  · intro p' present id
    cases effect.sameExits wf present with
    | inl new => omega
    | inr old =>
      obtain ⟨p, mem, same, exits⟩ := old
      have parent := same.symm.trans id
      rw [exits x.child.process.id ?_ ?_]
      · exact known.recorded p mem parent
      · intro e exited childPid
        apply known.gone
        rw [← childPid]
        exact mem_pids_of_exited exited
      · intro takes current
        exact untaken takes (current.symm.trans parent)
  · intro child
    cases effect.mem_pids wf child with
    | inl before => exact known.gone before
    | inr new => omega

theorem known_of_afterPass {passed : Machine} (known : x.Known awake passed) :
    ∀ m, x.AfterPass passed m → x.Known awake m := by
  refine Reachable.invariant ?_ ?_
  · rintro m rfl
    exact known
  · rintro m a m' known ⟨going, untaken⟩ stepped
    exact known.step x going untaken stepped

/-! ## Both orders -/

/-- The next pass ends the call of the parent with the exit code, and no call has panicked. -/
def ReachesWaiter (after passing : Machine) : Prop :=
  exitCall x.rcx x.frame x.before = some after ∧
    (∃ s, prepare false passing.time passing.scheduler.data = some s ∧
      OnHeap (Delivers x.code) x.parent.process.id s) ∧
    NextRun (Delivers x.code) x.parent.process.id passing

/-- The parent calls `sys_wait_pid` for the child after the pass. -/
structure LaterCall (passing : Machine) where
  pick : Option SchedulerProcess × List SchedulerProcess
  loopFrame : ProcessContext
  passed : Machine
  passes : passing.step (.schedule pick loopFrame) = some passed
  calling : Machine
  reached : x.AfterPass passed calling
  caller : SchedulerProcess
  frame : ProcessContext
  rcx : BitVec 64
  rdx : BitVec 64
  user : fromUser frame calling
  current : calling.Current caller
  isParent : caller.process.id = x.parent.process.id
  waitsFor : rcx.toNat = x.child.process.id

/-- The call of the parent ends with the exit code, and no call has panicked. -/
def ReachesCaller (after : Machine) {passing : Machine} (call : x.LaterCall passing) : Prop :=
  exitCall x.rcx x.frame x.before = some after ∧
    ∃ m, waitPidCall call.rcx call.rdx call.frame call.calling = some m ∧
      Returned (Delivers x.code) x.parent.process.id m ∧
      NextRun (Delivers x.code) x.parent.process.id m

theorem exitCall_eq_some_iff (exited : x.Exited after) :
    exitCall x.rcx x.frame x.before = some after ↔ x.code.msb = false := by
  have same : exitCall x.rcx x.frame x.before = if x.code.msb then none else some after :=
    exitCall_eq exited
  rw [same]
  cases x.code.msb <;> simp

theorem delivers_code (clear : x.code.msb = false) {rax : BitVec 64}
    (given : rax = x.code.signExtend 64) : Delivers x.code rax := by
  rw [given, delivers_signExtend_iff]
  exact ⟨clear, rfl⟩

theorem reachesWaiter_iff (exited : x.Exited after) (before : BeforePass after passing)
    (waits : x.parent.state = .waitingForPid x.child.process.id) :
    x.ReachesWaiter after passing ↔ x.code.msb = false := by
  have pending := x.pending_of_beforePass exited passing before
  obtain ⟨-, wf⟩ := wf_of_running pending.reached
  unfold ReachesWaiter
  rw [x.exitCall_eq_some_iff exited]
  constructor
  · exact fun reaches => reaches.1
  · intro clear
    refine ⟨clear, ?_, ?_⟩
    · obtain ⟨woken, done⟩ := Option.isSome_iff_exists.mp (wf.tryWake_isSome passing.time)
      have prepared : ∃ s, prepare false passing.time passing.scheduler.data = some s := by
        simp only [prepare, Bool.false_eq_true, if_false, done]
        exact ⟨_, rfl⟩
      obtain ⟨s, prepared⟩ := prepared
      obtain ⟨p, mem, id, rax⟩ := onHeap_prepare prepared fun w => pending.woken x waits
      exact ⟨s, prepared, p, mem, id, x.delivers_code clear rax⟩
    · intro later reached top rest frame m' stepped taken
      have rax := pending.nextRun x waits later reached top rest frame m' stepped taken
      exact x.delivers_code clear rax

theorem reachesCaller_iff (exited : x.Exited after)
    (before : BeforePass after passing) (call : x.LaterCall passing) :
    x.ReachesCaller after call ↔ x.code.msb = false ∧ ¬ Sleeps passing.time x.parent ∧
      call.calling.cpu.nCli + 2 ≤ Cpu.usizeMax := by
  have pending := x.pending_of_beforePass exited passing before
  have known := x.known_of_afterPass (pending.known x call.passes) call.calling call.reached
  obtain ⟨running, wf⟩ := wf_of_running known.reached
  have calling : Calling call.calling call.caller call.frame :=
    ⟨call.user, call.current, unlocked_of_running _ known.reached, running, wf⟩
  have gone : call.rcx.toNat ∉ call.calling.scheduler.data.livePids := by
    rw [call.waitsFor]
    exact fun alive => known.gone (List.mem_append_left _ alive)
  have returned := waitPidCall_returned_iff calling call.rcx call.rdx gone x.code
  rw [call.isParent, call.waitsFor,
    known.recorded _ (mem_live_of_get? call.current.1) call.isParent] at returned
  unfold ReachesCaller
  rw [x.exitCall_eq_some_iff exited]
  constructor
  · rintro ⟨clear, m, done, result, -⟩
    obtain ⟨room, -, awake⟩ := returned.mp ⟨m, done, result⟩
    exact ⟨clear, awake, room⟩
  · rintro ⟨clear, awake, room⟩
    obtain ⟨m, done, result⟩ := returned.mpr ⟨room, clear, awake⟩
    exact ⟨clear, m, done, result, result.nextRun⟩

/-- `sys_exit` panics exactly for a negative exit code or a full counter of `push_cli`. After it, a
parent that waits gets the exit code exactly if it is not negative, and one that calls later exactly
if moreover it did not sleep through the pass, and its own call has room for `push_cli`. -/
theorem exitCode_reaches_parent_iff :
    ((exitCall x.rcx x.frame x.before).isSome ↔
      x.code.msb = false ∧ x.before.cpu.nCli + 2 ≤ Cpu.usizeMax) ∧
    ∀ after, x.Exited after → ∀ passing, BeforePass after passing →
      (x.parent.state = .waitingForPid x.child.process.id →
        (x.ReachesWaiter after passing ↔ x.code.msb = false)) ∧
      ∀ call : x.LaterCall passing, x.ReachesCaller after call ↔
        x.code.msb = false ∧ ¬ Sleeps passing.time x.parent ∧
          call.calling.cpu.nCli + 2 ≤ Cpu.usizeMax := by
  obtain ⟨running, wf⟩ := wf_of_running x.reached
  have calling : Calling x.before x.child x.frame :=
    ⟨x.user, x.current, unlocked_of_running _ x.reached, running, wf⟩
  refine ⟨exitCall_isSome_iff calling x.rcx, ?_⟩
  intro after exited passing before
  exact ⟨x.reachesWaiter_iff exited before, x.reachesCaller_iff exited before⟩

end ChildExit

/-- The init process starts a child and waits for it; the child runs. -/
def waitForChild : List Action :=
  [.push 0 userContext, .schedule (some initProcess, []) kernelContext, .push 0 userContext,
    .wait 1 userContext, .schedule (some (childProcess 1), []) kernelContext]

/-- The machine after these actions. -/
def childRuns : Machine :=
  (runCalls step (fun _ a => a ≠ .stop) boot waitForChild).getD boot

/-- The child calls `sys_exit` with this argument. -/
def waitedExit (rcx : BitVec 64) : ChildExit where
  before := childRuns
  child := { childProcess 1 with state := .running, priorityCounter := u64Max - 6 }
  parent := waiter initProcess (u64Max - 3)
  rcx := rcx
  frame := userContext
  reached := running_of_runCalls waitForChild (by decide +kernel)
  user := by decide +kernel
  current := by
    constructor
    · decide +kernel
    · rfl
  alive := by decide +kernel
  isParent := rfl
  other := by decide

namespace ChildExit

/-- The machine after the child has exited with 7. -/
def sevenExited : Machine := (childRuns.step (.exit 7#32 userContext)).getD boot

/-- The parent as the pass leaves it. -/
def wokenParent : SchedulerProcess :=
  { waiter initProcess (u64Max - 6) with
    state := .scheduled
    process := { initProcess.process with
      context := { userContext with rax := 7#64 }
      childrenExits := SortedMap.empty.insert 1 7#32 } }

/-- The machine when the parent runs again. -/
def parentResumes : Machine :=
  (sevenExited.step (.schedule (some wokenParent, []) kernelContext)).getD boot

/-- The parent calls `sys_wait_pid` once more: the exit is also recorded. -/
def secondCall : (waitedExit 7#64).LaterCall sevenExited where
  pick := (some wokenParent, [])
  loopFrame := kernelContext
  passed := parentResumes
  passes := by decide +kernel
  calling := parentResumes
  reached := .start rfl
  caller := { wokenParent with state := .running, priorityCounter := u64Max - 9 }
  frame := userContext
  rcx := 1#64
  rdx := 0#64
  user := by decide +kernel
  current := by
    constructor
    · decide +kernel
    · rfl
  isParent := rfl
  waitsFor := by decide

theorem seven_reaches_parent :
    (waitedExit 7#64).Exited sevenExited ∧
      (waitedExit 7#64).ReachesWaiter sevenExited sevenExited ∧
      (waitedExit 7#64).ReachesCaller sevenExited secondCall := by
  have exited : (waitedExit 7#64).Exited sevenExited := by
    show childRuns.step (.exit 7#32 userContext) = some sevenExited
    decide +kernel
  obtain ⟨waiter, caller⟩ :=
    (exitCode_reaches_parent_iff (waitedExit 7#64)).2 sevenExited exited sevenExited (.start rfl)
  refine ⟨exited, (waiter rfl).mpr (by decide), (caller secondCall).mpr ⟨by decide, ?_, ?_⟩⟩
  · rintro ⟨t, state, -⟩
    cases state
  · decide +kernel

/-- With a negative exit code the kernel panics on the result of `sys_exit`, after the process has
left the scheduler. -/
theorem negative_exit_panics :
    (waitedExit 0xffffffffffffffff#64).code = BitVec.ofInt 32 (-1) ∧
      (∃ after, (waitedExit 0xffffffffffffffff#64).Exited after) ∧
      exitCall 0xffffffffffffffff#64 userContext (waitedExit 0xffffffffffffffff#64).before =
        none := by
  refine ⟨by decide, ⟨(childRuns.step (.exit 0xffffffff#32 userContext)).getD boot, ?_⟩, ?_⟩
  · show childRuns.step (.exit 0xffffffff#32 userContext) = some _
    decide +kernel
  · show exitCall 0xffffffffffffffff#64 userContext childRuns = none
    decide +kernel

end ChildExit

end Emerald.Machine
