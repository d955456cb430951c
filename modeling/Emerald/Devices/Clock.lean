
import Emerald.MemoryManagement.MemoryLayout

/-!
# Clocks

`ClockTime` of `kernel/src/devices/clock/mod.rs`, and how the HPET of
`devices/clock/hardware_timer/hpet.rs` reads its counter as a time.
-/

namespace Emerald

open Emerald.MemoryManagement (wrapAdd)

/-- `NANOS_PER_SEC`. -/
def nanosPerSec : Nat := 1000000000

/-- Time since a fixed point; the order is by `seconds`, then `nanoseconds`. -/
structure ClockTime where
  nanoseconds : Nat
  seconds : Nat
  deriving DecidableEq

namespace ClockTime

def le (a b : ClockTime) : Prop :=
  a.seconds < b.seconds ∨ (a.seconds = b.seconds ∧ a.nanoseconds ≤ b.nanoseconds)

instance : LE ClockTime := ⟨le⟩

instance (a b : ClockTime) : Decidable (a ≤ b) :=
  inferInstanceAs (Decidable (_ ∨ _))

/-- `impl Add for ClockTime`. -/
def add (a b : ClockTime) : ClockTime :=
  let nanoseconds := wrapAdd a.nanoseconds b.nanoseconds
  { nanoseconds := nanoseconds % 1000000000
    seconds := wrapAdd (wrapAdd a.seconds b.seconds) (nanoseconds / 1000000000) }

/-- Whether one of the sums in `impl Add for ClockTime` overflows. -/
def addOverflows (a b : ClockTime) : Bool :=
  decide (2 ^ 64 ≤ a.nanoseconds + b.nanoseconds) ||
    decide (2 ^ 64 ≤ a.seconds + b.seconds + (a.nanoseconds + b.nanoseconds) / nanosPerSec)

/-- The nanoseconds since the fixed point. -/
def toNanos (t : ClockTime) : Nat := t.seconds * nanosPerSec + t.nanoseconds

end ClockTime

namespace Devices.Clock

/-- `FEMTOS_PER_SEC`. -/
def femtosPerSec : Nat := 1000000000000000

/-- `NANOS_PER_FEMTO`: how many femtoseconds a nanosecond has. -/
def nanosPerFemto : Nat := 1000000

/-- `get_time` of the HPET. -/
def hpetTime (femtosPerTick counter : Nat) : ClockTime :=
  let secondsDivider := femtosPerSec / femtosPerTick
  { seconds := counter / secondsDivider
    nanoseconds := counter % secondsDivider * (femtosPerTick / nanosPerFemto) }

end Devices.Clock

end Emerald
