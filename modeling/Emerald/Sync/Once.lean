
import Mathlib

/-!
# Values that are set once

`Once` and `OnceLock` of `kernel/src/sync/once.rs`. An initialiser is given by what it returns; one
that comes back to the lock itself is a panic in the source and left out.
-/

namespace Emerald.Sync

/-- The values of the state of `Once`. -/
inductive OnceState
  | init
  | running
  | done
  deriving DecidableEq

/-- `OnceLock`. A slot of `none` is memory that nothing has written to. -/
structure OnceLock (T : Type) where
  once : OnceState
  value : Option T
  deriving DecidableEq

namespace OnceLock
variable {T E : Type}

def new : OnceLock T := ⟨.init, none⟩

def isCompleted (lock : OnceLock T) : Bool := lock.once = .done

/-- `OnceLock::init` with `Once::call`, which panics while an initialiser is running. -/
def init (f : Except E T) (lock : OnceLock T) : Option (Except E Unit × OnceLock T) :=
  match lock.once with
  | .init =>
    match f with
    | .ok value => some (.ok (), ⟨.done, some value⟩)
    | .error e => some (.error e, { lock with once := .done })
  | .running => none
  | .done => some (.ok (), lock)

/-- The part of `set` that changes the lock. -/
def set (value : T) (lock : OnceLock T) : Option (Except T Unit × OnceLock T) :=
  if lock.isCompleted then some (.error value, lock) else lock.init (.ok value)

/-- `get`: what a reference to the slot sees. `none` is a panic. -/
def get (lock : OnceLock T) : Option (Option T) :=
  if lock.isCompleted then some lock.value else none

/-- `try_get`. -/
def tryGet (lock : OnceLock T) : Option (Option T) :=
  if lock.isCompleted then some lock.value else none

/-- `get_or_try_init`. -/
def getOrTryInit (f : Except E T) (lock : OnceLock T) :
    Option (Except E (Option T) × OnceLock T) :=
  match lock.tryGet with
  | some value => some (.ok value, lock)
  | none => do
    match ← lock.init f with
    | (.ok (), lock) => some (.ok lock.value, lock)
    | (.error e, lock) => some (.error e, lock)

/-- `get_or_init`, whose initialiser cannot fail. -/
def getOrInit (value : T) (lock : OnceLock T) : Option (Option T × OnceLock T) := do
  match ← lock.getOrTryInit (.ok value : Except Unit T) with
  | (.ok value, lock) => some (value, lock)
  | (.error _, _) => none

end OnceLock

/-- A call on a lock. -/
inductive OnceCall (T E : Type)
  | set (value : T)
  | getOrInit (value : T)
  | getOrTryInit (f : Except E T)
  | get
  | tryGet

/-- The lock after a call. A call of `get` that panics does not change it. -/
def OnceCall.run {T E : Type} (lock : OnceLock T) : OnceCall T E → Option (OnceLock T)
  | .set value => (lock.set value).map (·.2)
  | .getOrInit value => (lock.getOrInit value).map (·.2)
  | .getOrTryInit f => (lock.getOrTryInit f).map (·.2)
  | .get => some lock
  | .tryGet => some lock

end Emerald.Sync
