
import Emerald.Process.ExitAndWait
import Emerald.Process.Proofs.WakeUp
import Emerald.Process.Proofs.Conservation

/-!
# The calls of `sys_exit` and `sys_wait_pid`

`sys_exit` panics on a negative exit code, because it returns the code as its own result. For a
process that has exited, `sys_wait_pid` returns the code if it is recorded, and an error otherwise.
-/

namespace Emerald
variable {frame : ProcessContext} {m : Machine} {p : SchedulerProcess}

namespace Machine
variable {m' : Machine}

open Scheduler Process

theorem msb_signExtend (code : BitVec 32) : (code.signExtend 64).msb = code.msb := by
  rw [BitVec.msb_signExtend]
  simp

/-! ## `sys_exit` -/

/-- The interrupt of `sys_exit` is the exit of the process, unless the exit code is negative. -/
theorem exitCall_eq {rcx : BitVec 64} (exited : m.step (.exit (exitCodeArg rcx) frame) = some m') :
    exitCall rcx frame m = if (exitCodeArg rcx).msb then none else some m' := by
  simp only [step, Option.ite_none_right_eq_some] at exited
  obtain ⟨kernel, a, handled, rfl⟩ := interrupt_spec exited.2
  obtain ⟨p, -, left, -⟩ := exitCurrentProcess_spec handled
  have idle : a.cpu.context.isNone ∨ a.cpu.scheduling = true := .inl (by rw [left.context]; rfl)
  have number : ¬ numSyscalls ≤ sysExitNumber := by decide
  simp only [exitCall, interrupt, handleSyscall, syscallHandlerWrapper, number, if_false, sysExit,
    handled, Option.bind_eq_bind, Option.bind_some, syscallResultToU64_ok, msb_signExtend]
  cases (exitCodeArg rcx).msb with
  | true => rfl
  | false =>
    simp only [Bool.false_eq_true, if_false, Option.bind_some, yieldCurrentIfAny, idle]
    rfl

/-! ## No panic in the calls of a process -/

theorem popCli_total {cpu : Cpu} (nested : 0 < cpu.nCli) (disabled : cpu.interruptFlag = false) :
    ∃ cpu', cpu.popCli = some cpu' := ⟨_, if_pos ⟨nested, disabled⟩⟩

variable {α : Type} {body : Cpu → Scheduler → Option (α × Cpu × Scheduler)} {result : α}

theorem pushable_of_locked (done : m.locked body = some (result, m')) : m.cpu.Pushable 1 := by
  obtain ⟨cpu, -, -, pushed, -⟩ := locked_spec done
  exact Cpu.pushCli_isSome_iff.mp (by rw [pushed]; rfl)

/-- A body that leaves the processor alone runs between the lock and the drop of the guard. -/
theorem locked_total (free : m.scheduler.locked = false) (room : m.cpu.Pushable 1)
    {s' : Scheduler} (runs : ∀ cpu : Cpu, cpu.processId = m.cpu.processId →
      body cpu m.scheduler.data = some (result, cpu, s')) :
    ∃ m', m.locked body = some (result, m') ∧ m'.scheduler = ⟨false, s'⟩ ∧
      Cpu.Balanced m.cpu m'.cpu ∧ Cpu.SameRun m.cpu m'.cpu := by
  obtain ⟨cpu, pushed⟩ := Option.isSome_iff_exists.mp (Cpu.pushCli_isSome_iff.mpr room)
  obtain ⟨up, disabled, run, -⟩ := Cpu.pushCli_spec pushed
  obtain ⟨cpu', popped⟩ := popCli_total (by omega) disabled
  refine ⟨{ m with scheduler := ⟨false, s'⟩, cpu := cpu' }, ?_, rfl, Cpu.push_pop pushed popped⟩
  simp only [locked, Mutex.lock, Mutex.unlock, pushed, popped, free, Bool.false_eq_true,
    if_false, runs cpu run.processId, some_bind]

/-- Taking the current process from the processor needs room for two more calls of `push_cli`. -/
theorem room_of_takeCurrentProcess {a b : Machine} (pushed : m.pushCli = some a)
    (taken : a.takeCurrentProcess = some (p, b)) : m.cpu.Pushable 2 := by
  rw [Cpu.pushable_succ_iff (pushCli_spec pushed).1]
  exact pushable_of_locked taken

/-- With that room it is taken, and the scheduler changed, without a panic. -/
theorem take_and_leave_total (free : m.scheduler.locked = false) (current : m.Current p)
    (on : m.cpu.context.isSome) (room : m.cpu.Pushable 2)
    (change : Bool → Scheduler → Scheduler) :
    ∃ a b kernel cpu c d, m.pushCli = some a ∧ a.takeCurrentProcess = some (p, b) ∧
      leaveProcess b.cpu = some (kernel, cpu) ∧
      { b with cpu := cpu }.locked (fun cpu s => some ((), cpu, change b.shutdown s)) =
        some ((), c) ∧ c.popCli = some d := by
  obtain ⟨cpu, pushed⟩ := Option.isSome_iff_exists.mp
    (Cpu.pushCli_isSome_iff.mpr (room.le one_le_two))
  obtain ⟨up, disabled, run, -⟩ := Cpu.pushCli_spec pushed
  rw [Cpu.pushable_succ_iff pushed] at room
  have first : m.pushCli = some { m with cpu := cpu } := by
    simp only [pushCli, pushed, some_bind]
  obtain ⟨b, taken, data, balanced, same⟩ :
      ∃ b, takeCurrentProcess { m with cpu := cpu } = some (p, b) ∧
        b.scheduler = ⟨false, m.scheduler.data.dropProc m.cpu.processId⟩ ∧
        Cpu.Balanced cpu b.cpu ∧ Cpu.SameRun cpu b.cpu := by
    refine locked_total (m := { m with cpu := cpu }) free room fun c id => ?_
    rw [id, show ({ m with cpu := cpu } : Machine).cpu.processId = m.cpu.processId from
      run.processId]
    show (m.scheduler.data.runningWaitingProcs.get? m.cpu.processId >>= _) = _
    rw [current.1]
    simp only [some_bind, current.2]
    rfl
  obtain ⟨kernel, context⟩ := Option.isSome_iff_exists.mp on
  have left : leaveProcess b.cpu = some (kernel, { b.cpu with context := none }) := by
    simp only [leaveProcess, same.context, run.context, context, some_bind]
  have off := balanced.trans (Cpu.balanced_context b.cpu none)
  obtain ⟨c, changed, -, balanced', -⟩ :
      ∃ c, locked { b with cpu := { b.cpu with context := none } } (fun cpu s =>
          some ((), cpu, change b.shutdown s)) = some ((), c) ∧
        c.scheduler = ⟨false, change b.shutdown b.scheduler.data⟩ ∧
        Cpu.Balanced { b.cpu with context := none } c.cpu ∧
        Cpu.SameRun { b.cpu with context := none } c.cpu :=
    locked_total (m := { b with cpu := { b.cpu with context := none } }) (by rw [data])
      ((off.pushable 1).mpr room) fun _ _ => rfl
  have last := off.trans balanced'
  obtain ⟨d, popped⟩ := popCli_total (by rw [last.nCli]; omega) (last.interruptFlag.trans disabled)
  refine ⟨_, b, kernel, _, c, { c with cpu := d }, first, taken, left, changed, ?_⟩
  simp only [popCli, popped, some_bind]

section
variable (free : m.scheduler.locked = false) (current : m.Current p) (on : m.cpu.context.isSome)
include free current on

theorem exitCurrentProcess_isSome_iff (exitCode : BitVec 32) (frame : ProcessContext) :
    (exitCurrentProcess exitCode frame m).isSome ↔ m.cpu.Pushable 2 := by
  constructor
  · intro done
    obtain ⟨⟨kernel, m'⟩, done⟩ := Option.isSome_iff_exists.mp done
    simp only [exitCurrentProcess, on, if_true, bind_eq_some, Prod.exists] at done
    obtain ⟨a, pushed, q, b, taken, -⟩ := done
    exact room_of_takeCurrentProcess pushed taken
  · intro room
    obtain ⟨a, b, kernel, cpu, c, d, pushed, taken, left, changed, popped⟩ :=
      take_and_leave_total free current on room fun _ s =>
        s.pushExited ((p.saved frame).process.exit exitCode)
    simp only [pushExited, SchedulerProcess.saved] at changed
    simp only [exitCurrentProcess, on, if_true, pushed, taken, left, changed, popped, some_bind,
      Option.isSome_some]

theorem yieldCurrentIfAny_isSome_iff (ready : m.cpu.scheduling = false) (frame : ProcessContext) :
    (yieldCurrentIfAny frame m).isSome ↔ m.cpu.Pushable 2 := by
  have busy : ¬ (m.cpu.context.isNone ∨ m.cpu.scheduling = true) := by
    simp [ready, ← Option.isSome_iff_ne_none, on]
  constructor
  · intro done
    obtain ⟨⟨kernel, m'⟩, done⟩ := Option.isSome_iff_exists.mp done
    simp only [yieldCurrentIfAny, busy, if_false, bind_eq_some, Prod.exists] at done
    obtain ⟨a, pushed, q, b, taken, -⟩ := done
    exact room_of_takeCurrentProcess pushed taken
  · intro room
    obtain ⟨a, b, kernel, cpu, c, d, pushed, taken, left, changed, popped⟩ :=
      take_and_leave_total free current on room fun shutdown s =>
        s.rescheduleProcess shutdown (p.saved frame)
    simp only [SchedulerProcess.saved] at changed
    simp only [yieldCurrentIfAny, busy, if_false, pushed, taken, left, changed, popped, some_bind,
      Option.isSome_some]

end

/-! ## `sys_wait_pid` -/

/-- The system call result in `rax` is `Ok` with the exit code in its low 32 bits. -/
def Delivers (exitCode : BitVec 32) (rax : BitVec 64) : Prop :=
  ∃ value, syscallResultFromU64 rax = .ok value ∧ value.setWidth 32 = exitCode

theorem delivers_signExtend_iff (exitCode code : BitVec 32) :
    Delivers exitCode (code.signExtend 64) ↔ code.msb = false ∧ code = exitCode := by
  have low : (code.signExtend 64).setWidth 32 = code := by
    apply BitVec.eq_of_getLsbD_eq
    intro i below
    have inside : i < 64 := by omega
    rw [BitVec.getLsbD_setWidth, BitVec.getLsbD_signExtend]
    simp only [below, inside, decide_true, if_true, Bool.true_and]
  unfold Delivers
  simp only [syscallResultFromU64_eq_ok_iff, msb_signExtend]
  constructor
  · rintro ⟨value, ⟨clear, rfl⟩, same⟩
    exact ⟨clear, low.symm.trans same⟩
  · rintro ⟨clear, rfl⟩
    exact ⟨_, ⟨clear, rfl⟩, low⟩

/-- The process with this pid is on the heap with a result in its registers. -/
def OnHeap (P : BitVec 64 → Prop) (pid : Nat) (s : Scheduler) : Prop :=
  ∃ p ∈ s.scheduledProcesses, p.process.id = pid ∧ P p.process.context.rax

/-- The call of the process with this pid has ended, with a result. -/
structure Returned (P : BitVec 64 → Prop) (pid : Nat) (m : Machine) : Prop where
  running : m.shutdown = false
  wf : Wf m.nextProcessId m.scheduler.data
  result : OnHeap P pid m.scheduler.data

/-- The end of a system call: the process yields with its result in `rax`. -/
theorem yield_returned_iff (free : m.scheduler.locked = false) (current : m.Current p)
    (on : m.cpu.context.isSome) (ready : m.cpu.scheduling = false) (running : m.shutdown = false)
    (wf : Wf m.nextProcessId m.scheduler.data) (P : BitVec 64 → Prop) (frame : ProcessContext) :
    (∃ kernel m', yieldCurrentIfAny frame m = some (kernel, m') ∧
      Returned P p.process.id m') ↔ m.cpu.Pushable 2 ∧ P frame.rax := by
  have total := yieldCurrentIfAny_isSome_iff free current on ready frame
  have after : ∀ kernel m', yieldCurrentIfAny frame m = some (kernel, m') →
      m'.scheduler.data.scheduledProcesses =
        { p.saved frame with
          priorityCounter := m.scheduler.data.maxPriority, state := .scheduled } ::
            m.scheduler.data.scheduledProcesses := by
    intro kernel m' done
    obtain ⟨q, current', -, data⟩ := yieldCurrentIfAny_spec done on ready
    cases current.1.symm.trans current'.1
    rw [data, running]
    rfl
  constructor
  · rintro ⟨kernel, m', done, returned⟩
    obtain ⟨q, mem, pid, holds⟩ := returned.result
    refine ⟨total.mp (by rw [done]; rfl), ?_⟩
    rw [after kernel m' done] at mem
    cases List.mem_cons.mp mem with
    | inl same =>
      rw [same] at holds
      exact holds
    | inr old =>
      -- the current process is in the map, so no process on the heap has its pid
      have inMap := m.scheduler.data.runningWaitingProcs.get?_eq_some_iff.mp current.1
      have equal := wf.eq_of_pid (mem_live.mpr (.inl old)) (live_of_entry inMap) pid
      have scheduled := wf.scheduled q old
      rw [equal, current.2] at scheduled
      cases scheduled
  · rintro ⟨room, holds⟩
    obtain ⟨⟨kernel, m'⟩, done⟩ := Option.isSome_iff_exists.mp (total.mpr room)
    obtain ⟨q, current', left, data⟩ := yieldCurrentIfAny_spec done on ready
    cases current.1.symm.trans current'.1
    refine ⟨kernel, m', done, left.clock.shutdown.trans running, ?_, { p.saved frame with
      priorityCounter := m.scheduler.data.maxPriority, state := .scheduled }, ?_, rfl, holds⟩
    · have moved : Wf m.nextProcessId
          ((m.scheduler.data.dropProc m.cpu.processId).rescheduleProcess false (p.saved frame)) :=
        wf.yield current.1
      rw [data, left.clock.nextProcessId, running]
      exact moved
    · rw [after kernel m' done]
      exact List.mem_cons_self

/-- The process has the processor and is about to handle a system call. -/
structure Calling (m : Machine) (p : SchedulerProcess) (frame : ProcessContext) : Prop where
  user : fromUser frame m
  current : m.Current p
  free : m.scheduler.locked = false
  running : m.shutdown = false
  wf : Wf m.nextProcessId m.scheduler.data

theorem Calling.entered (calling : Calling m p frame) :
    Calling { m with cpu := m.cpu.enterInterrupt } p frame :=
  ⟨calling.user, calling.current, calling.free, calling.running, calling.wf⟩

/-- `sys_exit` ends without a panic exactly if the exit code is not negative and `push_cli` has
room. -/
theorem exitCall_isSome_iff (calling : Calling m p frame) (rcx : BitVec 64) :
    (exitCall rcx frame m).isSome ↔
      (exitCodeArg rcx).msb = false ∧ m.cpu.nCli + 2 ≤ Cpu.usizeMax := by
  have total : (exitCurrentProcess (exitCodeArg rcx) frame
      { m with cpu := m.cpu.enterInterrupt }).isSome ↔ m.cpu.nCli + 2 ≤ Cpu.usizeMax :=
    (exitCurrentProcess_isSome_iff (m := { m with cpu := m.cpu.enterInterrupt }) calling.free
      calling.current calling.user.2.1 _ frame).trans (Cpu.pushable_of_disabled rfl 2)
  cases done : m.step (.exit (exitCodeArg rcx) frame) with
  | some m' =>
    have room : m.cpu.nCli + 2 ≤ Cpu.usizeMax := by
      simp only [step, Option.ite_none_right_eq_some] at done
      obtain ⟨kernel, a, handled, -⟩ := interrupt_spec done.2
      exact total.mp (by rw [handled]; rfl)
    rw [exitCall_eq done]
    cases (exitCodeArg rcx).msb <;> simp [room]
  | none =>
    have panics : exitCurrentProcess (exitCodeArg rcx) frame
        { m with cpu := m.cpu.enterInterrupt } = none := by
      simp only [step, calling.user, if_true, interrupt, Option.bind_eq_bind,
        Option.bind_eq_none_iff] at done
      cases handled : exitCurrentProcess (exitCodeArg rcx) frame
          { m with cpu := m.cpu.enterInterrupt } with
      | none => rfl
      | some result => exact absurd (done result handled) (Option.some_ne_none _)
    rw [panics] at total
    refine iff_of_false ?_ (fun meets => Bool.false_ne_true (total.mpr meets.2))
    have number : ¬ numSyscalls ≤ sysExitNumber := by decide
    simp only [exitCall, interrupt, handleSyscall, syscallHandlerWrapper, number, if_false,
      sysExit, panics, Option.bind_eq_bind, Option.bind_none, Option.isSome_none,
      Bool.false_eq_true, not_false_iff]

/-- A body under the lock that leaves the caller on the processor: it is still calling after it. -/
theorem Calling.locked {m : Machine} {p : SchedulerProcess} {frame : ProcessContext}
    (calling : Calling m p frame) (room : m.cpu.Pushable 1) {s' : Scheduler}
    (runs : ∀ cpu : Cpu, cpu.processId = m.cpu.processId →
      body cpu m.scheduler.data = some (result, cpu, s'))
    (wf : Wf m.nextProcessId s') {q : SchedulerProcess}
    (found : s'.runningWaitingProcs.get? m.cpu.processId = some q) (state : q.state = .running) :
    ∃ a, m.locked body = some (result, a) ∧ Calling a q frame ∧ Cpu.Balanced m.cpu a.cpu ∧
      a.scheduler.data = s' ∧ a.cpu.processId = m.cpu.processId := by
  obtain ⟨a, done, data, balanced, run⟩ := locked_total calling.free room runs
  obtain ⟨-, -, -, -, -, -, -, -, clock⟩ := locked_spec done
  refine ⟨a, done, ⟨⟨calling.user.1, ?_, ?_⟩, ⟨?_, state⟩, ?_, ?_, ?_⟩, balanced, by rw [data],
    run.processId⟩
  · rw [run.context]
    exact calling.user.2.1
  · rw [run.scheduling]
    exact calling.user.2.2
  · rw [data, run.processId]
    exact found
  · rw [data]
  · rw [clock.shutdown, calling.running]
  · rw [data, clock.nextProcessId]
    exact wf

/-- The state after `get_child_exit`, in which the rest of `sys_wait_pid` runs. -/
theorem Calling.takeChildExit (calling : Calling m p frame) (room : m.cpu.Pushable 1) (pid : Nat) :
    ∃ a, takeChildExit pid m = some (p.process.childrenExits.get? pid, a) ∧
      Calling a { p with process := (p.process.getChildExit pid).2 } frame ∧
      Cpu.Balanced m.cpu a.cpu ∧ a.scheduler.data = m.scheduler.data.putProc m.cpu.processId
        { p with process := (p.process.getChildExit pid).2 } ∧
      a.cpu.processId = m.cpu.processId := by
  unfold Machine.takeChildExit withCurrentProcessAndState
  refine calling.locked room ?_ (calling.wf.takeExit calling.current.1 pid)
    (SortedMap.get?_insert_self _ _ _) calling.current.2
  intro cpu same
  rw [same, calling.current.1]
  simp only [some_bind, calling.current.2]
  rfl

/-- The processes that are scheduled, running or waiting are found. -/
theorem Calling.isProcessRunning (calling : Calling m p frame) (room : m.cpu.Pushable 1)
    (pid : Nat) :
    ∃ a, isProcessRunning pid m = some (decide (pid ∈ m.scheduler.data.livePids), a) ∧
      Calling a p frame ∧ Cpu.Balanced m.cpu a.cpu ∧ a.scheduler.data = m.scheduler.data ∧
      a.cpu.processId = m.cpu.processId := by
  have found : (m.scheduler.data.runningWaitingProcs.keys ++
      m.scheduler.data.scheduledProcesses.map (·.process.id)).any (· == pid) =
        decide (pid ∈ m.scheduler.data.livePids) := by
    rw [Bool.eq_iff_iff, List.any_eq_true, decide_eq_true_eq]
    constructor
    · intro listed
      obtain ⟨other, mem, same⟩ := listed
      rw [beq_iff_eq] at same
      subst same
      apply List.mem_map.mpr
      cases List.mem_append.mp mem with
      | inl key =>
        obtain ⟨entry, present, rfl⟩ := List.mem_map.mp key
        exact ⟨entry.2, live_of_entry present, calling.wf.keyed entry present⟩
      | inr scheduled =>
        obtain ⟨q, present, rfl⟩ := List.mem_map.mp scheduled
        exact ⟨q, mem_live.mpr (.inl present), rfl⟩
    · intro live
      obtain ⟨q, present, rfl⟩ := List.mem_map.mp live
      refine ⟨q.process.id, List.mem_append.mpr ?_, beq_self_eq_true _⟩
      cases mem_live.mp present with
      | inl scheduled => exact .inr (List.mem_map_of_mem scheduled)
      | inr inMap =>
        obtain ⟨entry, mem, rfl⟩ := inMap
        refine .inl (List.mem_map.mpr ⟨entry, mem, ?_⟩)
        exact (calling.wf.keyed entry mem).symm
  rw [← found]
  exact calling.locked room (fun _ _ => rfl) calling.wf calling.current.1 calling.current.2

open PidStage in
/-- The last stage of a call with a pid, for the caller. -/
theorem finish_returned_iff (calling : Calling m p frame) {P : BitVec 64 → Prop}
    (result : PidResult) (turns : Nat) :
    (∃ m', runAlone frame (turns + 1) (.finish result) m = some m' ∧
        Returned P p.process.id m') ↔
      m.cpu.Pushable 2 ∧ ∃ rax, syscallResultToU64 result.toResult = some rax ∧ P rax := by
  cases encoded : syscallResultToU64 result.toResult with
  | none => simp [runAlone, run, encoded]
  | some rax =>
    have yields := yield_returned_iff calling.free calling.current calling.user.2.1
      calling.user.2.2 calling.running calling.wf P { frame with rax := rax }
    simp only [Option.some.injEq, exists_eq_left', ← yields]
    simp only [runAlone, run, encoded, Option.bind_eq_bind, Option.bind_some,
      Option.bind_eq_some_iff]
    constructor
    · rintro ⟨m', ⟨left, ⟨⟨kernel, a⟩, yielded, same⟩, done⟩, returned⟩
      cases same
      cases done
      exact ⟨kernel, a, yielded, returned.running, returned.wf, returned.result⟩
    · rintro ⟨kernel, a, yielded, returned⟩
      exact ⟨_, ⟨_, ⟨_, yielded, rfl⟩, rfl⟩, returned.running, returned.wf, returned.result⟩

open PidStage in
/-- `sys_wait_pid` for a process that has exited returns its exit code exactly if that is recorded
and not negative. -/
theorem waitPidCall_returned_iff (calling : Calling m p frame) (rcx rdx : BitVec 64)
    (gone : rcx.toNat ∉ m.scheduler.data.livePids) (exitCode : BitVec 32) :
    (∃ m', waitPidCall rcx rdx frame m = some m' ∧
        Returned (Delivers exitCode) p.process.id m') ↔
      m.cpu.nCli + 2 ≤ Cpu.usizeMax ∧ exitCode.msb = false ∧
        p.process.childrenExits.get? rcx.toNat = some exitCode := by
  unfold waitPidCall
  by_cases room : m.cpu.nCli < Cpu.usizeMax
  · obtain ⟨a, taken, calling', balanced, data, -⟩ := calling.entered.takeChildExit
      ((Cpu.pushable_of_disabled rfl 1).mpr room) rcx.toNat
    have live : a.scheduler.data.livePids.Perm m.scheduler.data.livePids := by
      rw [data]
      exact livePids_putProc calling.current.1 rfl
    have gone' : rcx.toNat ∉ a.scheduler.data.livePids := fun mem =>
      gone (live.mem_iff.mp mem)
    have pid : ({ p with process := (p.process.getChildExit rcx.toNat).2 } :
        SchedulerProcess).process.id = p.process.id := rfl
    have enough : m.cpu.nCli + 2 ≤ Cpu.usizeMax ↔ a.cpu.Pushable 2 :=
      ((balanced.pushable 2).trans (Cpu.pushable_of_disabled rfl 2)).symm
    rw [← pid, enough, runAlone, waitPidStart, run, taken]
    cases recorded : p.process.childrenExits.get? rcx.toNat with
    | some code =>
      simp only [some_bind]
      rw [finish_returned_iff calling']
      simp only [PidResult.toResult, syscallResultToU64_ok, msb_signExtend]
      cases negative : code.msb with
      | true =>
        refine and_congr_right fun _ => iff_of_false (by simp) ?_
        rintro ⟨clear, same⟩
        cases same
        exact Bool.false_ne_true (clear.symm.trans negative)
      | false =>
        simp only [Bool.false_eq_true, if_false, Option.some.injEq, exists_eq_left',
          delivers_signExtend_iff]
        refine and_congr_right fun _ => ⟨?_, ?_⟩
        · rintro ⟨clear, rfl⟩
          exact ⟨clear, rfl⟩
        · rintro ⟨clear, rfl⟩
          exact ⟨clear, rfl⟩
    | none =>
      refine iff_of_false ?_ (by rintro ⟨-, -, same⟩; cases same)
      obtain ⟨b, looked, calling'', -⟩ := calling'.isProcessRunning
        ((balanced.pushable 1).mpr ((Cpu.pushable_of_disabled rfl 1).mpr room)) rcx.toNat
      rw [decide_eq_false gone'] at looked
      simp only [some_bind]
      rw [runAlone, run, looked]
      simp only [some_bind, Bool.false_eq_true, if_false]
      rw [finish_returned_iff calling'']
      -- the encoding of an error has its top bit set, and that of an exit code has not
      rintro ⟨-, rax, encoded, value, decoded, -⟩
      have set := msb_of_syscallResultToU64_error encoded
      have clear := ((syscallResultFromU64_eq_ok_iff _ _).mp decoded).1
      exact Bool.false_ne_true (clear.symm.trans set)
  · refine iff_of_false ?_ (by rintro ⟨enough, -⟩; omega)
    rintro ⟨b, done, -⟩
    simp only [runAlone, waitPidStart, run, bind_eq_some] at done
    obtain ⟨next, ⟨exit, taken, -⟩, -⟩ := done
    simp only [takeChildExit, withCurrentProcessAndState] at taken
    exact room (pushable_of_locked taken).1

end Machine

end Emerald
