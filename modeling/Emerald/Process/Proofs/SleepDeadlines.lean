
import Emerald.Process.Sleep
import Emerald.Process.Proofs.ExitCodes

/-!
# Sleeping until a deadline

`sys_sleep` computes the deadline as the sum of two times in seconds and nanoseconds. As long as the
sum fits, it is the instant that lies the requested time after the call, and the waking passes leave
the process alone before that instant and wake it at the first pass from then on. A sum that does
not fit panics, or it wraps around to an instant in the past.
-/

namespace Emerald

open MemoryManagement (wrapAdd)

variable {a b : ClockTime} {p : SchedulerProcess}
variable {m : Machine} {frame : ProcessContext}

/-! ## Times as numbers -/

namespace ClockTime

/-- A time the clock can read. -/
structure Valid (t : ClockTime) : Prop where
  seconds : t.seconds < 2 ^ 64
  nanoseconds : t.nanoseconds < nanosPerSec

theorem Valid.toNanos_lt {t : ClockTime} (valid : t.Valid) :
    t.toNanos < 2 ^ 64 * nanosPerSec := by
  have := valid.seconds
  have := valid.nanoseconds
  simp only [toNanos, nanosPerSec] at *
  omega

section
variable (validA : a.Valid) (validB : b.Valid)
include validA validB

theorem le_iff_toNanos_le : a ≤ b ↔ a.toNanos ≤ b.toNanos := by
  have := validA.nanoseconds
  have := validB.nanoseconds
  show a.le b ↔ _
  simp only [le, toNanos, nanosPerSec] at *
  omega

/-- The carry of the nanoseconds of two times. -/
theorem add_eq :
    a.add b = { nanoseconds := (a.nanoseconds + b.nanoseconds) % nanosPerSec
                seconds := (a.seconds + b.seconds +
                  (a.nanoseconds + b.nanoseconds) / nanosPerSec) % 2 ^ 64 } := by
  have := validA.nanoseconds
  have := validB.nanoseconds
  have small : wrapAdd a.nanoseconds b.nanoseconds = a.nanoseconds + b.nanoseconds :=
    Nat.mod_eq_of_lt (by simp only [nanosPerSec] at *; omega)
  simp only [add, small]
  simp only [wrapAdd, nanosPerSec, Nat.mod_add_mod]

theorem addOverflows_iff :
    a.addOverflows b = true ↔ 2 ^ 64 * nanosPerSec ≤ a.toNanos + b.toNanos := by
  have := validA.nanoseconds
  have := validB.nanoseconds
  rw [addOverflows, Bool.or_eq_true, decide_eq_true_iff, decide_eq_true_iff]
  simp only [toNanos, nanosPerSec] at *
  omega

/-- A sum is exact up to the wrap around. -/
theorem add_mod :
    (a.add b).Valid ∧ (a.add b).toNanos = (a.toNanos + b.toNanos) % (2 ^ 64 * nanosPerSec) := by
  rw [add_eq validA validB]
  refine ⟨⟨Nat.mod_lt _ (by decide), Nat.mod_lt _ (by decide)⟩, ?_⟩
  simp only [toNanos, nanosPerSec]
  omega

/-- A sum that fits is exact. -/
theorem add_of_fits (fits : a.toNanos + b.toNanos < 2 ^ 64 * nanosPerSec) :
    (a.add b).Valid ∧ (a.add b).toNanos = a.toNanos + b.toNanos := by
  have sum := add_mod validA validB
  rwa [Nat.mod_eq_of_lt fits] at sum

/-- A sum that does not fit wraps around to a time before both. -/
theorem add_le_of_overflow (overflow : 2 ^ 64 * nanosPerSec ≤ a.toNanos + b.toNanos) :
    a.add b ≤ a := by
  have := validA.nanoseconds
  have := validB.seconds
  have := validB.nanoseconds
  rw [add_eq validA validB]
  show le _ a
  simp only [le, toNanos, nanosPerSec] at *
  omega

end

end ClockTime

/-! ## Sleeping processes -/

namespace Scheduler

/-- The process with this pid is on the heap. -/
def Ready (pid : Nat) (s : Scheduler) : Prop := ∃ p ∈ s.scheduledProcesses, p.process.id = pid

/-- The process with this pid sleeps until the time. -/
def SleepsTo (pid : Nat) (time : ClockTime) (s : Scheduler) : Prop :=
  ∃ p, s.runningWaitingProcs.get? pid = some p ∧ p.state = .waitingForTime time

section
variable {next pid : Nat} {time timeNow : ClockTime} {s s' : Scheduler}

section
variable (sleeps : SleepsTo pid time s) {key : Nat}
include sleeps

theorem SleepsTo.not_ready (wf : Wf next s) : ¬ Ready pid s := by
  intro ready
  obtain ⟨p, found, state⟩ := sleeps
  obtain ⟨q, inHeap, same⟩ := ready
  have entry := s.runningWaitingProcs.get?_eq_some_iff.mp found
  have equal := wf.eq_of_pid (mem_live.mpr (.inl inHeap)) (live_of_entry entry)
    (same.trans (wf.keyed _ entry).symm)
  have scheduled := wf.scheduled q inHeap
  rw [equal, state] at scheduled
  cases scheduled

/-- A pass before the time leaves the process asleep. -/
theorem SleepsTo.wake (done : s.tryWakeWaitingProcesses false timeNow = some s')
    (early : ¬ time ≤ timeNow) : SleepsTo pid time s' := by
  obtain ⟨p, found, state⟩ := sleeps
  have entry := s.runningWaitingProcs.get?_eq_some_iff.mp found
  have unchanged : afterVisit s.runningWaitingProcs.entries s.exitedProcesses (pid, p) =
      (pid, p) := by
    simp [afterVisit, SchedulerProcess.visited, SchedulerProcess.absorbs, state]
  rcases wake_entry done entry with ⟨-, kept⟩ | ⟨wakes, -⟩
  · rw [unchanged] at kept
    exact ⟨p, s'.runningWaitingProcs.get?_eq_some_iff.mpr kept, state⟩
  · simp only [WakesUp, state] at wakes
    exact absurd wakes early

/-- A pass from the time on puts it on the heap. -/
theorem SleepsTo.ready (wf : Wf next s) (done : s.tryWakeWaitingProcesses false timeNow = some s')
    (due : time ≤ timeNow) : Ready pid s' := by
  obtain ⟨p, found, state⟩ := sleeps
  have entry := s.runningWaitingProcs.get?_eq_some_iff.mp found
  rcases wake_entry done entry with ⟨stays, -⟩ | ⟨-, inHeap⟩
  · refine absurd ?_ stays
    simp only [WakesUp, state]
    exact due
  · refine ⟨_, inHeap, ?_⟩
    simpa [recorded, rescheduled, afterVisit] using wf.keyed _ entry

theorem SleepsTo.prepare (prepared : Machine.prepare false timeNow s = some s')
    (early : ¬ time ≤ timeNow) : SleepsTo pid time s' := by
  obtain ⟨woken, done, same⟩ := Machine.prepare_cases prepared
  have after : SleepsTo pid time woken := sleeps.wake done early
  rcases same with ⟨-, rfl⟩ | ⟨-, rfl⟩
  · exact after
  · exact after

/-- An entry with another pid written or removed. -/
theorem SleepsTo.putProc (other : key ≠ pid) (p : SchedulerProcess) :
    SleepsTo pid time (s.putProc key p) := by
  obtain ⟨q, found, state⟩ := sleeps
  refine ⟨q, ?_, state⟩
  rw [Scheduler.putProc, SortedMap.get?_insert, if_neg (Ne.symm other)]
  exact found

theorem SleepsTo.dropProc (other : key ≠ pid) : SleepsTo pid time (s.dropProc key) := by
  obtain ⟨q, found, state⟩ := sleeps
  refine ⟨q, ?_, state⟩
  rw [Scheduler.dropProc, SortedMap.get?_erase, if_neg (Ne.symm other)]
  exact found

end

end

end Scheduler

namespace Machine

open Scheduler Process

section
variable {pid : Nat} {time : ClockTime} {m m' : Machine}

/-- The process on the processor does not sleep. -/
theorem Current.ne_of_sleepsTo (current : m.Current p)
    (sleeps : SleepsTo pid time m.scheduler.data) : m.cpu.processId ≠ pid := by
  intro same
  obtain ⟨q, found, state⟩ := sleeps
  rw [← same, current.1] at found
  cases found
  rw [current.2] at state
  cases state

/-- What happens between the passes, and passes before the time, leave the process asleep. -/
theorem SleepsTo.step {a : Action} (sleeps : SleepsTo pid time m.scheduler.data)
    (reached : Running m) (going : a ≠ .stop)
    (early : ∀ pick frame, a = .schedule pick frame → ¬ time ≤ m.time)
    (stepped : m.step a = some m') : SleepsTo pid time m'.scheduler.data := by
  obtain ⟨running, wf⟩ := wf_of_running reached
  obtain ⟨effect, -, -⟩ := step_effect running going stepped
  cases effect with
  | same quiet data run | push parentId context data run =>
    rw [data]
    exact sleeps
  | exit exitCode frame p current data off | yield frame p current data off =>
    rw [data]
    exact sleeps.dropProc (current.ne_of_sleepsTo sleeps)
  | suspend p frame state quiet current waits user data off | takeExit key p current data run =>
    rw [data]
    exact sleeps.putProc (current.ne_of_sleepsTo sleeps) _
  | priority key level changed run =>
    obtain ⟨p, here, state⟩ := sleeps
    obtain ⟨p', found, level, rfl, -⟩ := (wf.reprioritised changed).symm.get? here
    exact ⟨p', found, state⟩
  | schedule frame pass =>
    cases pass with
    | halt rest free prepared idle run =>
      exact sleeps.prepare prepared (early _ _ rfl)
    | run s top rest free prepared legal data on key =>
      have kept := sleeps.prepare prepared (early _ _ rfl)
      have wf' : Wf m.nextProcessId s := wf.prepare prepared
      have other : top.process.id ≠ pid := by
        intro same
        obtain ⟨q, found, -⟩ := kept
        rw [← same, wf'.get?_pick legal] at found
        cases found
      rw [data]
      exact kept.putProc other _

end

/-! ## The call -/

/-- A process is suspended without a panic if `push_cli` has room for two more calls. -/
theorem suspendCurrentProcess_isSome_iff (free : m.scheduler.locked = false)
    (current : m.Current p) (on : m.cpu.context.isSome) (state : ProcessState)
    (frame : ProcessContext) :
    (suspendCurrentProcess state frame m).isSome ↔ m.cpu.Pushable 2 := by
  constructor
  · intro done
    obtain ⟨⟨kernel, m'⟩, done⟩ := Option.isSome_iff_exists.mp done
    simp only [suspendCurrentProcess, Option.bind_eq_bind, Option.bind_eq_some_iff,
      Prod.exists] at done
    obtain ⟨kernel', a, suspended, -⟩ := done
    obtain ⟨cpu, cpu', q, q', pushed, -, body, -⟩ := withCurrentProcessAndState_spec suspended
    simp only [Option.bind_eq_some_iff] at body
    obtain ⟨inner, pushedInner, -⟩ := body
    rw [Cpu.pushable_succ_iff pushed, ← Cpu.pushCli_isSome_iff, pushedInner]
    rfl
  · intro room
    obtain ⟨kernel, context⟩ := Option.isSome_iff_exists.mp on
    obtain ⟨outer, pushed⟩ := Option.isSome_iff_exists.mp
      (Cpu.pushCli_isSome_iff.mpr (room.le one_le_two))
    obtain ⟨depth, -, run, -⟩ := Cpu.pushCli_spec pushed
    obtain ⟨inner, pushedInner⟩ := Option.isSome_iff_exists.mp
      (Cpu.pushCli_isSome_iff.mpr ((Cpu.pushable_succ_iff pushed 1).mp room))
    obtain ⟨depth', disabled', run', -⟩ := Cpu.pushCli_spec pushedInner
    have left : leaveProcess inner = some (kernel, { inner with context := none }) := by
      simp only [leaveProcess, run'.context, run.context, context, Option.bind_eq_bind,
        Option.bind_some]
    -- the drop of the guard and the last `pop_cli` undo the two
    obtain ⟨middle, popped⟩ : ∃ cpu, Cpu.popCli { inner with context := none } = some cpu :=
      popCli_total (show 0 < inner.nCli by omega) disabled'
    obtain ⟨depth'', -, -, -, flag⟩ := Cpu.popCli_spec popped
    have deep : middle.nCli = m.cpu.nCli + 1 := by
      simp only at depth''
      omega
    have quiet : middle.interruptFlag = false := by
      rw [← Bool.not_eq_true, flag]
      omega
    obtain ⟨last, poppedLast⟩ := popCli_total (by omega) quiet
    simp only [suspendCurrentProcess, withCurrentProcessAndState, locked, Mutex.lock, Mutex.unlock,
      pushed, free, Bool.false_eq_true, if_false, run.processId, current.1, current.2,
      if_true, pushedInner, left, popped, popCli, poppedLast, Option.bind_eq_bind,
      Option.bind_some, Option.isSome_some]

/-- The interrupt of `sys_sleep` is the sleep of the process, whose result is zero, unless the sum
overflows in a kernel that checks it. -/
theorem sleepCall_eq (overflowChecks : Bool) {rcx rdx : BitVec 64} (user : fromUser frame m)
    (small : rdx.toNat < nanosPerSec) :
    sleepCall overflowChecks rcx rdx frame m =
      if overflowChecks && m.time.addOverflows ⟨rdx.toNat, rcx.toNat⟩ then none
      else m.step (.sleep ⟨rdx.toNat, rcx.toNat⟩ { frame with rax := 0#64 }) := by
  have number : ¬ numSyscalls ≤ sysSleepNumber := by decide
  have user' : fromUser { frame with rax := 0#64 } m := user
  simp only [sleepCall, interrupt, handleSyscall, syscallHandlerWrapper, number, if_false, sysSleep,
    not_le.mpr small, step, user']
  split
  · rfl
  · cases slept : sleepCurrentProcess ⟨rdx.toNat, rcx.toNat⟩ { frame with rax := 0#64 }
        { m with cpu := m.cpu.enterInterrupt } with
    | none => rfl
    | some result =>
      obtain ⟨kernel, a⟩ := result
      have handled := slept
      simp only [sleepCurrentProcess, Option.ite_none_right_eq_some] at handled
      obtain ⟨p, -, left, -⟩ := suspendCurrentProcess_spec handled.2
      have idle : a.cpu.context.isNone ∨ a.cpu.scheduling = true := .inl (by rw [left.context]; rfl)
      have clear : (0#64).msb = false := rfl
      simp only [some_bind, syscallResultToU64_ok, clear, Bool.false_eq_true, if_false,
        yieldCurrentIfAny, idle]
      rfl

/-- The states after a call, up to the first waking pass at or after the deadline. -/
def UntilDeadline (deadline : Nat) (start : Machine) : Machine → Prop :=
  Reachable (fun m a m' => m.step a = some m')
    (fun m a => a ≠ .stop ∧ (∀ pick frame, a = .schedule pick frame → m.time.toNanos < deadline) ∧
      ∀ time, a = .tick time → time.Valid) (· = start)

/-- No waking pass before the deadline reschedules the process, and the first one from then on
does. -/
def WakesAt (pid deadline : Nat) (start : Machine) : Prop :=
  ∀ m, UntilDeadline deadline start m →
    ∃ s', m.scheduler.data.tryWakeWaitingProcesses m.shutdown m.time = some s' ∧
      (Ready pid s' ↔ deadline ≤ m.time.toNanos)

theorem valid_step {m' : Machine} {a : Action} (clock : m.time.Valid) (going : a ≠ .stop)
    (running : m.shutdown = false) (ticks : ∀ time, a = .tick time → time.Valid)
    (stepped : m.step a = some m') : m'.time.Valid := by
  obtain ⟨-, -, -, time⟩ := step_effect running going stepped
  rw [time]
  cases a with
  | tick now => exact ticks now rfl
  | _ => exact clock

/-- A process that sleeps to the deadline is woken at it. -/
theorem wakesAt_of_sleepsTo {pid deadline : Nat} {time : ClockTime} {start : Machine}
    (reached : Running start) (clock : start.time.Valid) (valid : time.Valid)
    (exact : time.toNanos = deadline) (sleeps : SleepsTo pid time start.scheduler.data) :
    WakesAt pid deadline start := by
  have still : ∀ m, UntilDeadline deadline start m →
      Running m ∧ m.time.Valid ∧ SleepsTo pid time m.scheduler.data := by
    refine Reachable.invariant ?_ ?_
    · intro m isStart
      subst isStart
      exact ⟨reached, clock, sleeps⟩
    · intro m a m' holds guarded stepped
      obtain ⟨reached, clock, sleeps⟩ := holds
      obtain ⟨going, early, ticks⟩ := guarded
      refine ⟨.call a reached going stepped, ?_, ?_⟩
      · exact valid_step clock going (wf_of_running reached).1 ticks stepped
      · refine SleepsTo.step sleeps reached going ?_ stepped
        intro pick frame isPass due
        have := early pick frame isPass
        rw [ClockTime.le_iff_toNanos_le valid clock] at due
        omega
  intro m before
  obtain ⟨reached, clock, sleeps⟩ := still m before
  obtain ⟨running, wf⟩ := wf_of_running reached
  obtain ⟨s', done⟩ := Option.isSome_iff_exists.mp (wf.tryWake_isSome m.time)
  rw [running]
  refine ⟨s', done, ?_⟩
  rw [← exact, ← ClockTime.le_iff_toNanos_le valid clock]
  constructor
  · intro ready
    apply Decidable.of_not_not
    intro early
    exact (sleeps.wake done early).not_ready (wf.wake done) ready
  · intro due
    exact sleeps.ready wf done due

/-- What the sleep of the current process leaves, if `push_cli` has room. -/
theorem sleep_spec (reached : Running m)
    (user : fromUser frame m) (current : m.Current p) (time : ClockTime) :
    ((m.step (.sleep time frame)).isSome ↔ m.cpu.nCli + 2 ≤ Cpu.usizeMax) ∧
      ∀ m', m.step (.sleep time frame) = some m' → Running m' ∧ m'.time = m.time ∧
        SleepsTo p.process.id (m.time.add time) m'.scheduler.data := by
  obtain ⟨running, wf⟩ := wf_of_running reached
  constructor
  · refine Iff.trans ?_ ((suspendCurrentProcess_isSome_iff
      (m := { m with cpu := m.cpu.enterInterrupt }) (unlocked_of_running m reached) current
      user.2.1 (.waitingForTime (m.time.add time)) frame).trans (Cpu.pushable_of_disabled rfl 2))
    have on : m.cpu.enterInterrupt.context.isSome = true := user.2.1
    simp only [step, user, interrupt, sleepCurrentProcess, on]
    cases suspendCurrentProcess (.waitingForTime (m.time.add time)) frame
      { m with cpu := m.cpu.enterInterrupt } with
    | none => rfl
    | some result => exact iff_of_true rfl rfl
  · intro m' slept
    have going : Action.sleep time frame ≠ .stop := by simp
    obtain ⟨-, -, -, clock⟩ := step_effect running going slept
    refine ⟨.call _ reached going slept, clock, ?_⟩
    simp only [step, Option.ite_none_right_eq_some] at slept
    obtain ⟨frame', b, handled, rfl⟩ := interrupt_spec slept.2
    simp only [sleepCurrentProcess, Option.ite_none_right_eq_some] at handled
    obtain ⟨q, current', -, data⟩ := suspendCurrentProcess_spec handled.2
    cases current.1.symm.trans current'.1
    have pid : m.cpu.processId = p.process.id := (wf.id_eq current.1).symm
    refine ⟨{ p.saved frame with state := .waitingForTime (m.time.add time) }, ?_, rfl⟩
    show b.scheduler.data.runningWaitingProcs.get? p.process.id = _
    rw [data, ← pid]
    exact SortedMap.get?_insert_self _ _ _

/-- A process that calls `sys_sleep` with nanoseconds below a second sleeps exactly until its
deadline if that fits into a `ClockTime`, and `push_cli` has room; with overflow checks or
without. -/
theorem sleepCall_wakesAt_iff (overflowChecks : Bool) {m : Machine} {p : SchedulerProcess}
    {frame : ProcessContext} (reached : Running m) (user : fromUser frame m)
    (current : m.Current p) (clock : m.time.Valid) (rcx rdx : BitVec 64)
    (small : rdx.toNat < nanosPerSec) :
    (∃ m', sleepCall overflowChecks rcx rdx frame m = some m' ∧
      WakesAt p.process.id (m.time.toNanos + (rcx.toNat * nanosPerSec + rdx.toNat)) m') ↔
      m.time.toNanos + (rcx.toNat * nanosPerSec + rdx.toNat) < 2 ^ 64 * nanosPerSec ∧
        m.cpu.nCli + 2 ≤ Cpu.usizeMax := by
  have request : ClockTime.Valid ⟨rdx.toNat, rcx.toNat⟩ := ⟨rcx.isLt, small⟩
  have userCleared : fromUser { frame with rax := 0#64 } m := user
  obtain ⟨total, spec⟩ := sleep_spec reached userCleared current ⟨rdx.toNat, rcx.toNat⟩
  have overflows := ClockTime.addOverflows_iff clock request
  rw [sleepCall_eq overflowChecks user small]
  constructor
  · intro sleeps
    obtain ⟨m', slept, wakes⟩ := sleeps
    obtain ⟨-, slept⟩ := Option.ite_none_left_eq_some.mp slept
    obtain ⟨reached', time, sleepsTo⟩ := spec m' slept
    refine ⟨?_, total.mp (by rw [slept]; rfl)⟩
    apply Nat.lt_of_not_le
    intro overflow
    -- the deadline has wrapped around, and the very next pass wakes the process
    obtain ⟨running, wf⟩ := wf_of_running reached'
    obtain ⟨s', done, iff⟩ := wakes m' (.start rfl)
    rw [running, time] at done
    have ready := sleepsTo.ready wf done (ClockTime.add_le_of_overflow clock request overflow)
    have late := iff.mp ready
    have := clock.toNanos_lt
    rw [time] at late
    omega
  · intro condition
    obtain ⟨fits, room⟩ := condition
    obtain ⟨m', slept⟩ := Option.isSome_iff_exists.mp (total.mpr room)
    obtain ⟨reached', time, sleepsTo⟩ := spec m' slept
    obtain ⟨valid, exact⟩ := ClockTime.add_of_fits clock request fits
    have none : (overflowChecks && m.time.addOverflows ⟨rdx.toNat, rcx.toNat⟩) = false := by
      rw [Bool.and_eq_false_iff]
      refine .inr ?_
      rw [← Bool.not_eq_true, overflows]
      exact Nat.not_le.mpr fits
    refine ⟨m', ?_, wakesAt_of_sleepsTo reached' (time ▸ clock) valid exact sleepsTo⟩
    rw [none]
    exact slept

/-- The init process has the processor, ten seconds after the start. -/
def initRuns : List Action :=
  [.push 0 userContext, .schedule (some initProcess, []) kernelContext, .tick ⟨0, 10⟩]

/-- The machine after these actions. -/
def initRunning : Machine :=
  (runCalls step (fun _ a => a ≠ .stop) boot initRuns).getD boot

theorem running_initRunning : Running initRunning :=
  running_of_runCalls initRuns (by decide +kernel)

theorem current_initRunning : initRunning.Current { initProcess with
    state := .running, priorityCounter := u64Max - 3 } := by
  refine ⟨?_, rfl⟩
  decide +kernel

/-- It sleeps for half a second. -/
theorem sleepCall_wakesAt_half_second :
    ∃ m', sleepCall true 0#64 500000000#64 userContext initRunning = some m' ∧
      WakesAt 0 10500000000 m' := by
  have clock : initRunning.time.Valid := by
    constructor
    · decide +kernel
    · decide +kernel
  exact (sleepCall_wakesAt_iff true running_initRunning (by decide +kernel) current_initRunning
    clock 0#64 500000000#64 (by decide)).mpr (by decide +kernel)

/-- It asks for the longest sleep: a kernel with overflow checks panics, and without them the next
pass wakes the process. -/
theorem longest_sleep_fails :
    sleepCall true (-1#64) 0#64 userContext initRunning = none ∧
      ∃ m' s', sleepCall false (-1#64) 0#64 userContext initRunning = some m' ∧
        m'.time = ⟨0, 10⟩ ∧
        m'.scheduler.data.tryWakeWaitingProcesses false m'.time = some s' ∧
        s'.scheduledProcesses.map (·.process.id) = [0] := by
  refine ⟨by decide +kernel, (sleepCall false (-1#64) 0#64 userContext initRunning).getD boot,
    (((sleepCall false (-1#64) 0#64 userContext initRunning).getD
      boot).scheduler.data.tryWakeWaitingProcesses false ⟨0, 10⟩).getD Scheduler.new, ?_⟩
  decide +kernel

end Machine

end Emerald
