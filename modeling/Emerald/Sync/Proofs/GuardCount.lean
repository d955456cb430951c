
import Emerald.Sync.Spin

/-!
# Guards and disabled interrupts

Every guard of a `Mutex`, a `ReMutex` or the write side of a `RwLock` stands for one `push_cli`. The
failing `try_lock` of a `ReMutex` leaves a `push_cli` without a guard, and the read side of a
`RwLock` gives guards without a `push_cli`; as long as a run avoids both, the nesting depth is the
number of live guards.
-/

namespace Emerald.Sync

open Cpu (Balanced pushCli_spec popCli_spec)

variable {weak taken : Bool} {guard : Guard} {call : LockCall}

/-- A call of one of the functions that lock: it takes the lock with a `push_cli`, or it fails with
the interrupts as they were. -/
def LockedOrBalanced (cpu : Cpu) (taken : Bool) (cpu' : Cpu) : Prop :=
  if taken then cpu.pushCli = some cpu' else Balanced cpu cpu'

theorem balanced_push_pop {a b c : Cpu} (pushed : a.pushCli = some b)
    (popped : b.popCli = some c) : Balanced a c :=
  Balanced.of_push_pop pushed (Balanced.refl b) popped

namespace Mutex
variable {m m' : Mutex} {cpu cpu' : Cpu} {α : Type}

theorem acquire_spec (done : m.acquire cpu = some (m', cpu')) : cpu.pushCli = some cpu' := by
  obtain ⟨pushed, push, done⟩ := bind_eq_some.mp done
  split at done
  · cases done
  · obtain ⟨lock, -, done⟩ := bind_eq_some.mp done
    cases done
    exact push

theorem tryLock_spec (done : m.tryLock weak cpu = some (taken, m', cpu')) :
    LockedOrBalanced cpu taken cpu' := by
  obtain ⟨pushed, push, done⟩ := bind_eq_some.mp done
  split at done
  · obtain ⟨popped, pop, done⟩ := bind_eq_some.mp done
    cases done
    exact balanced_push_pop push pop
  · split at done
    · cases done
      exact push
    · obtain ⟨popped, pop, done⟩ := bind_eq_some.mp done
      cases done
      exact balanced_push_pop push pop

theorem release_spec (done : m.release cpu = some (m', cpu')) : cpu.popCli = some cpu' := by
  obtain ⟨lock, -, done⟩ := bind_eq_some.mp done
  obtain ⟨popped, pop, done⟩ := bind_eq_some.mp done
  cases done
  exact pop

/-- What the processor knows of the mutex that only says whether it is held. -/
def view {α : Type} (m : Mutex) (data : α) : Emerald.Mutex α := ⟨m.ownerCpu = cpuId, data⟩

/-- `lock` is that of the other mutex, if no other processor holds it. -/
theorem lock_view (m : Mutex) (data : α) (cpu : Cpu)
    (free : m.ownerCpu ≠ cpuId → m.lock.state = 0) :
    (m.view data).lock cpu = (m.acquire cpu).map fun result => (result.1.view data, result.2) := by
  unfold acquire Emerald.Mutex.lock view
  cases cpu.pushCli with
  | none => rfl
  | some cpu =>
    by_cases own : m.ownerCpu = cpuId
    · simp [own]
    · simp [own, Lock.writeLock, Lock.tryWriteLock, free own]

/-- So is the drop of its guard. -/
theorem unlock_view (m : Mutex) (data : α) (cpu : Cpu) (held : m.lock.state = writeLocked) :
    (m.view data).unlock data cpu =
      (m.release cpu).map fun result => (result.1.view data, result.2) := by
  unfold release Emerald.Mutex.unlock view Lock.writeUnlock
  cases cpu.popCli <;> simp [held, cpuId]

end Mutex

namespace ReMutex
variable {m m' : ReMutex} {cpu cpu' : Cpu}

theorem acquire_spec (done : m.acquire cpu = some (m', cpu')) : cpu.pushCli = some cpu' := by
  obtain ⟨pushed, push, done⟩ := bind_eq_some.mp done
  split at done
  · split at done
    · obtain ⟨entered, -, done⟩ := bind_eq_some.mp done
      cases done
      exact push
    · cases done
  · obtain ⟨lock, -, done⟩ := bind_eq_some.mp done
    cases done
    exact push

/-- `try_lock` gets the lock: it is held by this processor, or it is free. -/
def Lockable (m : ReMutex) (weak : Bool) : Prop :=
  m.ownerCpu = cpuId ∨ m.lock.state = 0 ∧ weak = false

/-- `try_lock` has called `push_cli` when it returns, with a guard or without one. -/
theorem tryLock_spec (done : m.tryLock weak cpu = some (taken, m', cpu')) :
    cpu.pushCli = some cpu' ∧ (taken = true ↔ m.Lockable weak) := by
  obtain ⟨pushed, push, done⟩ := bind_eq_some.mp done
  split at done
  · rename_i owner
    split at done
    · obtain ⟨entered, -, done⟩ := bind_eq_some.mp done
      cases done
      exact ⟨push, iff_of_true rfl (.inl owner)⟩
    · cases done
  · rename_i owner
    unfold Lock.tryWriteLock at done
    split at done
    · rename_i lock locked
      cases done
      split at locked
      · rename_i free
        exact ⟨push, iff_of_true rfl (.inr free)⟩
      · cases locked
    · rename_i locked
      cases done
      split at locked
      · cases locked
      · rename_i held
        refine ⟨push, iff_of_false Bool.false_ne_true ?_⟩
        exact not_or.mpr ⟨owner, held⟩

theorem release_spec (done : m.release cpu = some (m', cpu')) : cpu.popCli = some cpu' := by
  unfold release at done
  split at done
  · cases done
  · dsimp only at done
    split at done
    · obtain ⟨lock, -, done⟩ := bind_eq_some.mp done
      obtain ⟨popped, pop, done⟩ := bind_eq_some.mp done
      cases done
      exact pop
    · obtain ⟨popped, pop, done⟩ := bind_eq_some.mp done
      cases done
      exact pop

end ReMutex

namespace RwLock
variable {m m' : RwLock} {cpu cpu' : Cpu}

theorem tryRead_spec : m.tryRead.1 = isReadLockable m.lock.state := by
  unfold tryRead Lock.tryReadLock
  cases isReadLockable m.lock.state with
  | true => rfl
  | false => rfl

theorem write_spec (done : m.write cpu = some (m', cpu')) : cpu.pushCli = some cpu' := by
  obtain ⟨pushed, push, done⟩ := bind_eq_some.mp done
  split at done
  · cases done
  · obtain ⟨lock, -, done⟩ := bind_eq_some.mp done
    cases done
    exact push

theorem tryWrite_spec (done : m.tryWrite weak cpu = some (taken, m', cpu')) :
    LockedOrBalanced cpu taken cpu' := by
  obtain ⟨pushed, push, done⟩ := bind_eq_some.mp done
  split at done
  · obtain ⟨popped, pop, done⟩ := bind_eq_some.mp done
    cases done
    exact balanced_push_pop push pop
  · split at done
    · cases done
      exact push
    · obtain ⟨popped, pop, done⟩ := bind_eq_some.mp done
      cases done
      exact balanced_push_pop push pop

theorem releaseWrite_spec (done : m.releaseWrite cpu = some (m', cpu')) :
    cpu.popCli = some cpu' := by
  unfold releaseWrite at done
  split at done
  · cases done
  · obtain ⟨lock, -, done⟩ := bind_eq_some.mp done
    obtain ⟨popped, pop, done⟩ := bind_eq_some.mp done
    cases done
    exact pop

end RwLock

/-- What the drop of a guard does to the processor. -/
def Guard.Drops (cpu cpu' : Cpu) : Guard → Prop
  | .read _ => cpu' = cpu
  | _ => cpu.popCli = some cpu'

namespace Locks
variable {s t : Locks}

/-- A call counts its guard: it is not a `try_lock` of a `ReMutex` that fails, and it takes no lock
for reading. -/
def Counts (s : Locks) : LockCall → Prop
  | .remutexTryLock index weak => (s.remutexes index).Lockable weak
  | .read _ => False
  | .tryRead index => isReadLockable (s.rwlocks index).lock.state = false
  | _ => True

/-- What a call does to the processor and the guards. -/
inductive Effect (s : Locks) : LockCall → Locks → Prop
  | takes {call : LockCall} {t : Locks} (guard : Guard) : (∀ index, guard ≠ .read index) →
      s.Counts call → s.cpu.pushCli = some t.cpu → t.guards = guard :: s.guards → Effect s call t
  | fails {call : LockCall} {t : Locks} : s.Counts call → Balanced s.cpu t.cpu →
      t.guards = s.guards → Effect s call t
  | leaks {call : LockCall} {t : Locks} : ¬ s.Counts call → s.cpu.pushCli = some t.cpu →
      t.guards = s.guards → Effect s call t
  | reads {call : LockCall} {t : Locks} (index : Nat) : ¬ s.Counts call → t.cpu = s.cpu →
      t.guards = .read index :: s.guards → Effect s call t
  | drops {t : Locks} {position : Nat} (guard : Guard) : s.guards[position]? = some guard →
      guard.Drops s.cpu t.cpu → t.guards = s.guards.eraseIdx position → Effect s (.drop position) t

theorem dropGuard_spec (done : s.dropGuard guard = some t) : guard.Drops s.cpu t.cpu := by
  cases guard with
  | mutex index =>
    obtain ⟨⟨m, cpu⟩, released, done⟩ := bind_eq_some.mp done
    cases done
    exact Mutex.release_spec released
  | remutex index =>
    obtain ⟨⟨m, cpu⟩, released, done⟩ := bind_eq_some.mp done
    cases done
    exact ReMutex.release_spec released
  | read index =>
    cases done
    rfl
  | write index =>
    obtain ⟨⟨m, cpu⟩, released, done⟩ := bind_eq_some.mp done
    cases done
    exact RwLock.releaseWrite_spec released

/-- A try that takes the lock or fails with the interrupts as they were. -/
theorem Effect.of_try {cpu : Cpu} (guard : Guard) (counts : s.Counts call)
    (guarded : ∀ index, guard ≠ .read index) (spec : LockedOrBalanced s.cpu taken cpu)
    (same : t.cpu = cpu) (guards : t.guards = if taken then guard :: s.guards else s.guards) :
    Effect s call t := by
  subst same
  cases taken with
  | true => exact .takes guard guarded counts spec guards
  | false => exact .fails counts spec guards

/-- Each call does one of these things. -/
theorem step_effect (done : s.step call = some t) : Effect s call t := by
  cases call with
  | mutexLock index =>
    obtain ⟨⟨m, cpu⟩, taken, done⟩ := bind_eq_some.mp done
    cases done
    exact .takes (.mutex index) nofun trivial (Mutex.acquire_spec taken) rfl
  | mutexTryLock index weak =>
    obtain ⟨⟨taken, m, cpu⟩, tried, done⟩ := bind_eq_some.mp done
    cases done
    exact .of_try (.mutex index) trivial nofun (Mutex.tryLock_spec tried) rfl rfl
  | remutexLock index =>
    obtain ⟨⟨m, cpu⟩, taken, done⟩ := bind_eq_some.mp done
    cases done
    exact .takes (.remutex index) nofun trivial (ReMutex.acquire_spec taken) rfl
  | remutexTryLock index weak =>
    obtain ⟨⟨taken, m, cpu⟩, tried, done⟩ := bind_eq_some.mp done
    cases done
    obtain ⟨pushed, lockable⟩ := ReMutex.tryLock_spec tried
    cases taken with
    | true => exact .takes (.remutex index) nofun (lockable.mp rfl) pushed rfl
    | false => exact .leaks (fun counts => Bool.false_ne_true (lockable.mpr counts)) pushed rfl
  | read index =>
    obtain ⟨m, taken, done⟩ := bind_eq_some.mp done
    cases done
    exact .reads index id rfl rfl
  | tryRead index =>
    have lockable := RwLock.tryRead_spec (m := s.rwlocks index)
    simp only [step] at done
    cases tried : (s.rwlocks index).tryRead with
    | mk taken m =>
      rw [tried] at lockable done
      cases done
      cases taken with
      | true =>
        have taking : ¬ s.Counts (.tryRead index) := fun counts =>
          Bool.false_ne_true (counts.symm.trans lockable.symm)
        exact .reads index taking rfl rfl
      | false => exact .fails lockable.symm (Balanced.refl _) rfl
  | write index =>
    obtain ⟨⟨m, cpu⟩, taken, done⟩ := bind_eq_some.mp done
    cases done
    exact .takes (.write index) nofun trivial (RwLock.write_spec taken) rfl
  | tryWrite index weak =>
    obtain ⟨⟨taken, m, cpu⟩, tried, done⟩ := bind_eq_some.mp done
    cases done
    exact .of_try (.write index) trivial nofun (RwLock.tryWrite_spec tried) rfl rfl
  | drop position =>
    obtain ⟨guard, found, done⟩ := bind_eq_some.mp done
    obtain ⟨u, dropped, done⟩ := bind_eq_some.mp done
    have spec := dropGuard_spec dropped
    cases done
    exact .drops guard found spec rfl
  | otherMutex index m | otherRemutex index m | otherRwlock index m =>
    cases done
    exact .fails trivial (Balanced.refl _) rfl

/-- The nesting depth is that of the first state and one more for each live guard, and interrupts
are enabled as in the first state when no guard is alive, and disabled otherwise. -/
def Counted (first s : Locks) : Prop :=
  s.cpu.nCli = first.cpu.nCli + s.guards.length ∧
    s.cpu.interruptFlag = (first.cpu.interruptFlag && s.guards.isEmpty)

/-- The invariant of the runs that count all their guards. -/
structure Nested (first s : Locks) : Prop where
  counted : Counted first s
  unread : ∀ index, .read index ∉ s.guards
  /-- While a guard is alive, the flag to restore is known. -/
  saved : s.guards ≠ [] →
    if first.cpu.nCli = 0 then s.cpu.oldInterruptEnable = first.cpu.interruptFlag
    else first.cpu.interruptFlag = false

variable {first : Locks}

section
variable (nested : Nested first s)
include nested

theorem Nested.takes (guarded : ∀ index, guard ≠ .read index)
    (pushed : s.cpu.pushCli = some t.cpu) (guards : t.guards = guard :: s.guards) :
    Nested first t := by
  obtain ⟨depth, flag⟩ := nested.counted
  obtain ⟨up, disabled, -, outer, inner⟩ := pushCli_spec pushed
  refine ⟨⟨?_, ?_⟩, ?_, ?_⟩
  · rw [guards, List.length_cons]
    omega
  · rw [disabled, guards, List.isEmpty_cons, Bool.and_false]
  · intro index mem
    rw [guards] at mem
    rcases List.mem_cons.mp mem with same | old
    · exact guarded index same.symm
    · exact nested.unread index old
  · intro _
    -- the first guard saves the flag of the first state; the others find it saved
    by_cases alone : s.guards = []
    · rw [alone] at depth flag
      have same : s.cpu.interruptFlag = first.cpu.interruptFlag := by
        rw [flag, List.isEmpty_nil, Bool.and_true]
      have level : s.cpu.nCli = first.cpu.nCli := depth
      split
      · rename_i top
        rw [outer (level.trans top), same]
      · rename_i deep
        rw [← same, (inner fun zero => deep (level.symm.trans zero)).1]
    · have before := nested.saved alone
      have more := List.length_pos_of_ne_nil alone
      split
      · rename_i top
        rw [if_pos top] at before
        rw [(inner (by omega)).2, before]
      · rename_i deep
        rw [if_neg deep] at before
        exact before

theorem Nested.fails (balanced : Balanced s.cpu t.cpu)
    (guards : t.guards = s.guards) : Nested first t := by
  obtain ⟨depth, flag⟩ := nested.counted
  refine ⟨⟨?_, ?_⟩, ?_, ?_⟩
  · rw [balanced.nCli, depth, guards]
  · rw [balanced.interruptFlag, flag, guards]
  · rw [guards]
    exact nested.unread
  · intro alive
    rw [guards] at alive
    have more := List.length_pos_of_ne_nil alive
    rw [balanced.saved (by omega)]
    exact nested.saved alive

theorem Nested.drops {position : Nat}
    (found : s.guards[position]? = some guard) (dropped : guard.Drops s.cpu t.cpu)
    (guards : t.guards = s.guards.eraseIdx position) : Nested first t := by
  obtain ⟨depth, flag⟩ := nested.counted
  obtain ⟨below, here⟩ := List.getElem?_eq_some_iff.mp found
  have popped : s.cpu.popCli = some t.cpu := by
    cases guard with
    | read index => exact absurd (List.mem_of_getElem? found) (nested.unread index)
    | _ => exact dropped
  obtain ⟨down, -, -, old, enabled⟩ := popCli_spec popped
  have length : t.guards.length + 1 = s.guards.length := by
    rw [guards, List.length_eraseIdx_of_lt below]
    omega
  have before := nested.saved (List.ne_nil_of_length_pos (by omega))
  refine ⟨⟨by omega, ?_⟩, ?_, ?_⟩
  · rw [Bool.eq_iff_iff, enabled, Bool.and_eq_true, List.isEmpty_iff_length_eq_zero]
    split at before
    · rename_i top
      rw [before]
      constructor
      · rintro ⟨zero, on⟩
        exact ⟨on, by omega⟩
      · rintro ⟨on, none⟩
        exact ⟨by omega, on⟩
    · rw [before]
      constructor
      · rintro ⟨zero, -⟩
        omega
      · rintro ⟨on, -⟩
        cases on
  · intro index mem
    rw [guards] at mem
    exact nested.unread index (List.mem_of_mem_eraseIdx mem)
  · intro _
    rw [old]
    exact before

/-- From a state of such a run, a call counts its guard exactly if it ends in one. -/
theorem Nested.step (done : s.step call = some t) :
    (s.Counts call → Nested first t) ∧ (Counted first t → s.Counts call) := by
  obtain ⟨depth, flag⟩ := nested.counted
  cases step_effect done with
  | takes guard guarded counts pushed guards =>
    exact ⟨fun _ => nested.takes guarded pushed guards, fun _ => counts⟩
  | fails counts balanced guards => exact ⟨fun _ => nested.fails balanced guards, fun _ => counts⟩
  | leaks leak pushed guards =>
    refine ⟨fun counts => absurd counts leak, fun counted => ?_⟩
    have up := (pushCli_spec pushed).1
    have depth' := counted.1
    rw [guards] at depth'
    omega
  | reads index read same guards =>
    refine ⟨fun counts => absurd counts read, fun counted => ?_⟩
    have depth' := counted.1
    rw [guards, same, List.length_cons] at depth'
    omega
  | drops guard found dropped guards =>
    exact ⟨fun _ => nested.drops found dropped guards, fun _ => trivial⟩

end

/-- The states reached from `first` by calls that meet a condition. -/
def ReachedFrom (first : Locks) (condition : Locks → LockCall → Prop) : Locks → Prop :=
  Reachable (fun s call t => s.step call = some t)
    (fun s call => s.Allowed call ∧ condition s call) (· = first)

/-- In every run in which no `try_lock` of a `ReMutex` fails and no lock is taken for reading, the
nesting depth counts the live guards and interrupts are enabled again when the last one is dropped;
and a further call keeps this exactly if it meets the condition. -/
theorem counted_iff_counts (first : Locks) (initial : first.Initial) (s : Locks)
    (reached : ReachedFrom first Counts s) :
    Counted first s ∧ ∀ call t, s.Allowed call → s.step call = some t →
      (Counted first t ↔ s.Counts call) := by
  have invariant : ∀ s, ReachedFrom first Counts s → Nested first s := by
    refine Reachable.invariant ?_ ?_
    · rintro s rfl
      refine ⟨⟨?_, ?_⟩, ?_, ?_⟩
      · rw [initial.guards]
        rfl
      · rw [initial.guards, List.isEmpty_nil, Bool.and_true]
      · rw [initial.guards]
        exact fun index => List.not_mem_nil
      · exact fun alive => absurd initial.guards alive
    · rintro s call t nested ⟨-, counts⟩ done
      exact (nested.step done).1 counts
  have nested := invariant s reached
  refine ⟨nested.counted, fun call t _ done => ?_⟩
  obtain ⟨keeps, only⟩ := nested.step done
  exact ⟨only, fun counts => (keeps counts).counted⟩

/-- Interrupts are enabled, and the first `ReMutex` is held by another processor. -/
def heldElsewhere : Locks where
  cpu := ⟨false, 0, none, 0, false, true⟩
  mutexes _ := ⟨⟨0⟩, -1⟩
  remutexes index := if index = 0 then ⟨⟨writeLocked⟩, 1, 1⟩ else ⟨⟨0⟩, -1, 0⟩
  rwlocks _ := ⟨⟨0⟩, -1⟩
  guards := []

theorem initial_heldElsewhere : heldElsewhere.Initial := by
  refine ⟨rfl, ?_, ?_, ?_⟩
  · exact fun index => (by decide : (-1 : Int) ≠ cpuId)
  · intro index
    unfold heldElsewhere
    dsimp only
    split
    · decide
    · decide
  · exact fun index => (by decide : (-1 : Int) ≠ cpuId)

/-- Two locks, one of them entered twice, and a guard dropped out of order. -/
theorem counted_iff_counts_heldElsewhere :
    ∃ s : Locks, s.guards.length = 2 ∧ Counted heldElsewhere s := by
  have observed : (runCalls step (fun s call => match call with
      | .remutexLock 1 | .mutexLock 0 | .mutexTryLock 0 _ | .drop _ => true
      | _ => false) heldElsewhere
      [.remutexLock 1, .mutexLock 0, .remutexLock 1, .mutexTryLock 0 false, .drop 1]).map
        (fun s => s.guards.length) = some 2 := by decide +kernel
  obtain ⟨s, ran, length⟩ := Option.map_eq_some_iff.mp observed
  refine ⟨s, length, ?_⟩
  refine (counted_iff_counts heldElsewhere initial_heldElsewhere s ?_).1
  refine Reachable.of_runCalls (f := step) _ ?_ _ (.start rfl) ran
  intro s call permitted
  cases call with
  | mutexLock index | mutexTryLock index weak | remutexLock index | drop position =>
    exact ⟨trivial, trivial⟩
  | _ => cases permitted

/-- A `try_lock` of a `ReMutex` that another processor holds, and one of a free `ReMutex` whose weak
exchange fails: it returns no guard, and interrupts stay disabled. -/
theorem remutexTryLock_not_counted :
    [LockCall.remutexTryLock 0 false, .remutexTryLock 1 true].Forall fun call =>
      ∃ t : Locks, heldElsewhere.Initial ∧ heldElsewhere.step call = some t ∧
        t.guards = [] ∧ t.cpu.nCli = 1 ∧ t.cpu.interruptFlag = false ∧
        ¬ Counted heldElsewhere t := by
  refine List.forall_iff_forall_mem.mpr fun call given => ?_
  have observed : (heldElsewhere.step call).map
      (fun t => (t.guards, t.cpu.nCli, t.cpu.interruptFlag)) = some ([], 1, false) := by
    simp only [List.mem_cons, List.not_mem_nil, or_false] at given
    rcases given with rfl | rfl
    · decide +kernel
    · decide +kernel
  obtain ⟨t, ran, seen⟩ := Option.map_eq_some_iff.mp observed
  obtain ⟨guards, depth, flag⟩ : t.guards = [] ∧ t.cpu.nCli = 1 ∧ t.cpu.interruptFlag = false := by
    simpa only [Prod.mk.injEq] using seen
  refine ⟨t, initial_heldElsewhere, ran, guards, depth, flag, fun counted => ?_⟩
  have count := counted.1
  rw [guards, depth] at count
  exact absurd count (by decide)

end Locks

end Emerald.Sync
