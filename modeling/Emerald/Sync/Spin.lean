
import Emerald.Cpu
import Emerald.Misc.Reachable

/-!
# Spin locks

`kernel/src/sync/spin`: the raw lock, and `Mutex`, `ReMutex` and `RwLock` over it, each with its own
use of `push_cli` and `pop_cli`. The data they protect is left out. A lock may be held by another
processor; whether a weak compare-and-exchange fails although the lock is free is an argument.
`none` is a panic, or a call that spins.
-/

namespace Emerald.Sync

/-- `cpu().id`: there is one processor that the model follows. -/
def cpuId : Int := 0

/-! ## The raw lock -/

def mask : Nat := 2 ^ 30 - 1

def writeLocked : Nat := mask

def maxReaders : Nat := mask - 1

/-- `is_read_lockable`. -/
def isReadLockable (state : Nat) : Bool := state &&& mask < maxReaders

/-- `Lock`. -/
structure Lock where
  state : Nat
  deriving DecidableEq

namespace Lock

variable (l : Lock)

/-- `try_read_lock`. -/
def tryReadLock : Option Lock :=
  if isReadLockable l.state then some ⟨l.state + 1⟩ else none

/-- `read_unlock`. -/
def readUnlock : Lock := ⟨(l.state + (2 ^ 64 - 1)) % 2 ^ 64⟩

/-- `try_write_lock`; `weak` when the exchange fails without a reason. -/
def tryWriteLock (weak : Bool) : Option Lock :=
  if l.state = 0 ∧ weak = false then some ⟨writeLocked⟩ else none

/-- `write_lock`, which tries until it succeeds. -/
def writeLock : Option Lock := l.tryWriteLock false

/-- `write_unlock`. -/
def writeUnlock : Option Lock := if l.state = writeLocked then some ⟨0⟩ else none

end Lock

/-! ## `Mutex` -/

/-- `Mutex`. -/
structure Mutex where
  lock : Lock
  ownerCpu : Int
  deriving DecidableEq

namespace Mutex

/-- `Mutex::lock`. -/
def acquire (m : Mutex) (cpu : Cpu) : Option (Mutex × Cpu) := do
  let cpu ← cpu.pushCli
  if m.ownerCpu = cpuId then none
  else
    let lock ← m.lock.writeLock
    some (⟨lock, cpuId⟩, cpu)

/-- `try_lock`, and whether it returns a guard. -/
def tryLock (m : Mutex) (weak : Bool) (cpu : Cpu) : Option (Bool × Mutex × Cpu) := do
  let cpu ← cpu.pushCli
  if m.ownerCpu = cpuId then
    let cpu ← cpu.popCli
    some (false, m, cpu)
  else
    match m.lock.tryWriteLock weak with
    | some lock => some (true, ⟨lock, cpuId⟩, cpu)
    | none =>
      let cpu ← cpu.popCli
      some (false, m, cpu)

/-- The drop of a `MutexGuard`. -/
def release (m : Mutex) (cpu : Cpu) : Option (Mutex × Cpu) := do
  let lock ← m.lock.writeUnlock
  let cpu ← cpu.popCli
  some (⟨lock, -1⟩, cpu)

end Mutex

/-! ## `ReMutex` -/

/-- `ReMutex`. -/
structure ReMutex where
  lock : Lock
  ownerCpu : Int
  lockCount : Nat
  deriving DecidableEq

namespace ReMutex

variable (m : ReMutex)

/-- The `checked_add` on the lock count. -/
def reenter : Option ReMutex :=
  if m.lockCount < Cpu.usizeMax then some { m with lockCount := m.lockCount + 1 } else none

/-- `ReMutex::lock`. -/
def acquire (cpu : Cpu) : Option (ReMutex × Cpu) := do
  let cpu ← cpu.pushCli
  if m.ownerCpu = cpuId then
    if 0 < m.lockCount ∧ 0 < cpu.nCli ∧ cpu.interruptFlag = false then
      let m ← m.reenter
      some (m, cpu)
    else none
  else
    let lock ← m.lock.writeLock
    some (⟨lock, cpuId, 1⟩, cpu)

/-- `try_lock`, and whether it returns a guard. Its last branch does not call `pop_cli`. -/
def tryLock (weak : Bool) (cpu : Cpu) : Option (Bool × ReMutex × Cpu) := do
  let cpu ← cpu.pushCli
  if m.ownerCpu = cpuId then
    if 0 < m.lockCount then
      let m ← m.reenter
      some (true, m, cpu)
    else none
  else
    match m.lock.tryWriteLock weak with
    | some lock => some (true, ⟨lock, cpuId, 1⟩, cpu)
    | none => some (false, m, cpu)

/-- The drop of a `ReMutexGuard`. -/
def release (cpu : Cpu) : Option (ReMutex × Cpu) := do
  if m.lockCount = 0 then none
  else
    let m := { m with lockCount := m.lockCount - 1 }
    if m.lockCount = 0 then
      let lock ← m.lock.writeUnlock
      let cpu ← cpu.popCli
      some ({ m with lock := lock, ownerCpu := -1 }, cpu)
    else
      let cpu ← cpu.popCli
      some (m, cpu)

end ReMutex

/-! ## `RwLock` -/

/-- `RwLock`. -/
structure RwLock where
  lock : Lock
  ownerCpu : Int
  deriving DecidableEq

namespace RwLock

variable (m : RwLock)

/-- `read`. -/
def read : Option RwLock := do
  let lock ← m.lock.tryReadLock
  some ⟨lock, -1⟩

/-- `try_read`, and whether it returns a guard. -/
def tryRead : Bool × RwLock :=
  match m.lock.tryReadLock with
  | some lock => (true, ⟨lock, -1⟩)
  | none => (false, m)

/-- `write`. -/
def write (cpu : Cpu) : Option (RwLock × Cpu) := do
  let cpu ← cpu.pushCli
  if m.ownerCpu = cpuId then none
  else
    let lock ← m.lock.writeLock
    some (⟨lock, cpuId⟩, cpu)

/-- `try_write`, and whether it returns a guard. -/
def tryWrite (weak : Bool) (cpu : Cpu) : Option (Bool × RwLock × Cpu) := do
  let cpu ← cpu.pushCli
  if m.ownerCpu = cpuId then
    let cpu ← cpu.popCli
    some (false, m, cpu)
  else
    match m.lock.tryWriteLock weak with
    | some lock => some (true, ⟨lock, cpuId⟩, cpu)
    | none =>
      let cpu ← cpu.popCli
      some (false, m, cpu)

/-- The drop of a `RwLockReadGuard`. -/
def releaseRead : RwLock := { m with lock := m.lock.readUnlock }

/-- The drop of a `RwLockWriteGuard`. -/
def releaseWrite (cpu : Cpu) : Option (RwLock × Cpu) := do
  if m.ownerCpu = -1 then none
  else
    let lock ← m.lock.writeUnlock
    let cpu ← cpu.popCli
    some (⟨lock, -1⟩, cpu)

end RwLock

/-! ## Runs -/

/-- A live guard, with the lock it is of. -/
inductive Guard
  | mutex (index : Nat)
  | remutex (index : Nat)
  | read (index : Nat)
  | write (index : Nat)
  deriving DecidableEq

/-- The processor, the locks, and the guards alive on this processor. -/
structure Locks where
  cpu : Cpu
  mutexes : Nat → Mutex
  remutexes : Nat → ReMutex
  rwlocks : Nat → RwLock
  guards : List Guard

/-- The calls of this processor, and what another processor leaves a lock in. -/
inductive LockCall
  | mutexLock (index : Nat)
  | mutexTryLock (index : Nat) (weak : Bool)
  | remutexLock (index : Nat)
  | remutexTryLock (index : Nat) (weak : Bool)
  | read (index : Nat)
  | tryRead (index : Nat)
  | write (index : Nat)
  | tryWrite (index : Nat) (weak : Bool)
  | drop (position : Nat)
  | otherMutex (index : Nat) (m : Mutex)
  | otherRemutex (index : Nat) (m : ReMutex)
  | otherRwlock (index : Nat) (m : RwLock)

namespace Locks
variable (s : Locks)

def setMutex (index : Nat) (m : Mutex) : Locks :=
  { s with mutexes := Function.update s.mutexes index m }

def setRemutex (index : Nat) (m : ReMutex) : Locks :=
  { s with remutexes := Function.update s.remutexes index m }

def setRwlock (index : Nat) (m : RwLock) : Locks :=
  { s with rwlocks := Function.update s.rwlocks index m }

/-- The processor and the guards after a call, which returns a guard or not. -/
def returned (cpu : Cpu) (taken : Bool) (guard : Guard) : Locks :=
  { s with cpu := cpu, guards := if taken then guard :: s.guards else s.guards }

/-- The drop of a guard. -/
def dropGuard : Guard → Option Locks
  | .mutex index => do
    let (m, cpu) ← (s.mutexes index).release s.cpu
    some { s.setMutex index m with cpu := cpu }
  | .remutex index => do
    let (m, cpu) ← (s.remutexes index).release s.cpu
    some { s.setRemutex index m with cpu := cpu }
  | .read index => some (s.setRwlock index (s.rwlocks index).releaseRead)
  | .write index => do
    let (m, cpu) ← (s.rwlocks index).releaseWrite s.cpu
    some { s.setRwlock index m with cpu := cpu }

def step : LockCall → Option Locks
  | .mutexLock index => do
    let (m, cpu) ← (s.mutexes index).acquire s.cpu
    some ((s.setMutex index m).returned cpu true (.mutex index))
  | .mutexTryLock index weak => do
    let (taken, m, cpu) ← (s.mutexes index).tryLock weak s.cpu
    some ((s.setMutex index m).returned cpu taken (.mutex index))
  | .remutexLock index => do
    let (m, cpu) ← (s.remutexes index).acquire s.cpu
    some ((s.setRemutex index m).returned cpu true (.remutex index))
  | .remutexTryLock index weak => do
    let (taken, m, cpu) ← (s.remutexes index).tryLock weak s.cpu
    some ((s.setRemutex index m).returned cpu taken (.remutex index))
  | .read index => do
    let m ← (s.rwlocks index).read
    some ((s.setRwlock index m).returned s.cpu true (.read index))
  | .tryRead index =>
    let (taken, m) := (s.rwlocks index).tryRead
    some ((s.setRwlock index m).returned s.cpu taken (.read index))
  | .write index => do
    let (m, cpu) ← (s.rwlocks index).write s.cpu
    some ((s.setRwlock index m).returned cpu true (.write index))
  | .tryWrite index weak => do
    let (taken, m, cpu) ← (s.rwlocks index).tryWrite weak s.cpu
    some ((s.setRwlock index m).returned cpu taken (.write index))
  | .drop position => do
    let guard ← s.guards[position]?
    let s' ← s.dropGuard guard
    some { s' with guards := s.guards.eraseIdx position }
  | .otherMutex index m => some (s.setMutex index m)
  | .otherRemutex index m => some (s.setRemutex index m)
  | .otherRwlock index m => some (s.setRwlock index m)

/-- Another processor does not change a lock that a guard of this one is of, and does not make this
one its owner. -/
def Allowed : LockCall → Prop
  | .otherMutex index m => .mutex index ∉ s.guards ∧ m.ownerCpu ≠ cpuId
  | .otherRemutex index m => .remutex index ∉ s.guards ∧ m.ownerCpu ≠ cpuId
  | .otherRwlock index m => .read index ∉ s.guards ∧ .write index ∉ s.guards ∧ m.ownerCpu ≠ cpuId
  | _ => True

/-- No guard is alive, and this processor owns no lock. -/
structure Initial (s : Locks) : Prop where
  guards : s.guards = []
  mutexes : ∀ index, (s.mutexes index).ownerCpu ≠ cpuId
  remutexes : ∀ index, (s.remutexes index).ownerCpu ≠ cpuId
  rwlocks : ∀ index, (s.rwlocks index).ownerCpu ≠ cpuId

end Locks

end Emerald.Sync
