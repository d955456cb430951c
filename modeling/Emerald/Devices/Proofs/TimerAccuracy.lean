
import Emerald.Devices.Clock

/-!
# How exact the timers are

`get_time` drops the part of a period that is less than a nanosecond with every tick, and takes up
the loss with every second. Seconds have a whole number of ticks and come a little early.
-/

namespace Emerald.Devices.Clock

/-- The time of the HPET in femtoseconds. -/
def femtos (period counter : Nat) : Int := nanosPerFemto * (hpetTime period counter).toNanos

/-- The HPET reports the time between two counters within a microsecond and one part in a
million. -/
def Accurate (period first last : Nat) : Prop :=
  let elapsed : Int := (last - first) * period
  1000000 * |femtos period last - femtos period first - elapsed| ≤ 1000000 * 1000000000 + elapsed

/-- How far the time is ahead: a second gains what its ticks are short of it, and a tick loses what
is less than a nanosecond. -/
def ahead (period counter : Nat) : Int :=
  (counter / (femtosPerSec / period) : Nat) * (femtosPerSec % period : Nat) -
    (counter % (femtosPerSec / period) : Nat) * (period % nanosPerFemto : Nat)

theorem femtos_eq (period counter : Nat) :
    femtos period counter = counter * period + ahead period counter := by
  have second := Nat.div_add_mod femtosPerSec period
  have tick := Nat.div_add_mod period nanosPerFemto
  have ticks := Nat.div_add_mod counter (femtosPerSec / period)
  unfold femtos ahead hpetTime ClockTime.toNanos
  dsimp only
  generalize femtosPerSec / period = divider at *
  generalize counter / divider = seconds at *
  generalize counter % divider = rest at *
  generalize femtosPerSec % period = short at *
  generalize period / nanosPerFemto = nanos at *
  generalize period % nanosPerFemto = lost at *
  zify [femtosPerSec, nanosPerFemto, nanosPerSec] at second tick ticks ⊢
  linear_combination (-seconds : Int) * second + (rest : Int) * tick + (period : Int) * ticks

theorem accurate_iff (period first last : Nat) :
    Accurate period first last ↔
      1000000 * |ahead period last - ahead period first| ≤
        (femtosPerSec : Int) + (last - first) * period := by
  have difference : femtos period last - femtos period first - (last - first) * period =
      ahead period last - ahead period first := by
    rw [femtos_eq, femtos_eq]
    ring
  unfold Accurate
  dsimp only
  rw [difference]
  rfl

theorem ahead_of_lt {period counter : Nat} (early : counter < femtosPerSec / period) :
    ahead period counter = -(counter * (period % nanosPerFemto : Nat)) := by
  unfold ahead
  rw [Nat.div_eq_of_lt early, Nat.mod_eq_of_lt early]
  ring

theorem ahead_second {period : Nat} (ticks : 0 < femtosPerSec / period) :
    ahead period (femtosPerSec / period) = (femtosPerSec % period : Nat) := by
  unfold ahead
  rw [Nat.div_self ticks, Nat.mod_self]
  ring

section
variable {period : Nat} (positive : 1 ≤ period) (slow : period ≤ 100000000)

/-- What the last tick of a second gains. -/
def caughtUp (period : Nat) : Nat :=
  femtosPerSec % period + (femtosPerSec / period - 1) * (period % nanosPerFemto)

include positive slow in
theorem many_ticks : 10000000 ≤ femtosPerSec / period :=
  (Nat.le_div_iff_mul_le positive).mpr (by simp only [femtosPerSec]; omega)

include positive slow in
theorem caughtUp_of_accurate
    (accurate : ∀ first last, first < last → last < 2 ^ 40 → Accurate period first last) :
    1000000 * caughtUp period ≤ femtosPerSec + period := by
  have many := many_ticks positive slow
  by_cases reached : femtosPerSec / period < 2 ^ 40
  · have last := (accurate_iff ..).mp (accurate _ _ (Nat.sub_one_lt_of_lt many) reached)
    rw [ahead_second (by omega), ahead_of_lt (by omega)] at last
    have gained := le_abs_self ((femtosPerSec % period : Nat) -
      -((femtosPerSec / period - 1 : Nat) * (period % nanosPerFemto : Nat) : Int))
    unfold caughtUp
    generalize femtosPerSec / period = divider at *
    generalize period % nanosPerFemto = loss at *
    generalize femtosPerSec % period = gain at *
    zify [show 1 ≤ divider by omega] at last gained ⊢
    linarith
  · -- A counter of 40 bits does not reach the first second, and loses every tick.
    have small : period ≤ 909 := by
      by_contra large
      have := (Nat.le_div_iff_mul_le positive).mp (not_lt.mp reached)
      simp only [femtosPerSec] at this
      omega
    have last := (accurate_iff ..).mp (accurate 0 (2 ^ 40 - 1) (by decide) (by decide))
    rw [ahead_of_lt (by omega), ahead_of_lt (by omega),
      Nat.mod_eq_of_lt (show period < nanosPerFemto by simp only [nanosPerFemto]; omega)] at last
    have lost := neg_abs_le (-((2 ^ 40 - 1 : Nat) * (period : Int)) - -((0 : Nat) * period : Int))
    simp only [femtosPerSec] at last lost
    push_cast at last lost
    omega

include positive slow in
theorem accurate_of_caughtUp (fine : 1000000 * caughtUp period ≤ femtosPerSec + period)
    {first last : Nat} (before : first < last) : Accurate period first last := by
  have many := many_ticks positive slow
  have second := Nat.div_add_mod femtosPerSec period
  have short := Nat.mod_lt femtosPerSec positive
  have seconds := Nat.div_le_div_right (c := femtosPerSec / period) before.le
  have passed := Nat.div_add_mod last (femtosPerSec / period)
  have started := Nat.div_add_mod first (femtosPerSec / period)
  have inLast := Nat.mod_lt last (show 0 < femtosPerSec / period by omega)
  have inFirst := Nat.mod_lt first (show 0 < femtosPerSec / period by omega)
  rw [accurate_iff]
  unfold ahead
  unfold caughtUp at fine
  generalize femtosPerSec / period = divider at *
  generalize femtosPerSec % period = gain at *
  generalize period % nanosPerFemto = loss at *
  generalize last / divider = lastSecond at *
  generalize last % divider = lastTick at *
  generalize first / divider = firstSecond at *
  generalize first % divider = firstTick at *
  zify [show 1 ≤ divider by omega, femtosPerSec] at *
  have less : (lastTick - firstTick : Int) * loss ≤ (divider - 1) * loss :=
    mul_le_mul_of_nonneg_right (by omega) (by omega)
  have more : -(divider - 1 : Int) * loss ≤ (lastTick - firstTick) * loss :=
    mul_le_mul_of_nonneg_right (by omega) (by omega)
  have gained : 0 ≤ (lastSecond - firstSecond : Int) * gain := mul_nonneg (by omega) (by omega)
  have elapsed : (period : Int) ≤ (last - first) * period :=
    le_mul_of_one_le_left (by omega) (by omega)
  rcases abs_cases ((lastSecond * gain - lastTick * loss : Int) -
    (firstSecond * gain - firstTick * loss)) with ⟨ahead, -⟩ | ⟨behind, -⟩
  · rw [ahead]
    rcases seconds.eq_or_lt with same | later
    · have ticks : 0 ≤ (lastTick - firstTick : Int) * loss := by
        rw [same] at started
        exact mul_nonneg (by omega) (by omega)
      rw [same]
      linarith
    · -- One second catches up, and each of the others gains less than a millionth of itself.
      have others : 0 ≤
          (lastSecond - firstSecond - 1 : Int) * (period * divider - 1000000 * gain) :=
        mul_nonneg (by omega) (by omega)
      have rest : 0 ≤ (lastTick - firstTick + (divider - 1) : Int) * period :=
        mul_nonneg (by omega) (by omega)
      rw [← passed, ← started]
      linarith
  · rw [behind]
    linarith

end

/-- The time between two counters is off by what the whole seconds between them gain less what the
further ticks lose; over all pairs of counters the error is largest over the last tick of a second,
which makes up for the ones before it. -/
theorem hpet_accurate_iff {period : Nat} (positive : 1 ≤ period) (slow : period ≤ 100000000) :
    (∀ first last, Accurate period first last ↔
      let ticks := femtosPerSec / period
      let seconds : Int := (last / ticks : Nat) - (first / ticks : Nat)
      let rest : Int := (last % ticks : Nat) - (first % ticks : Nat)
      1000000 * |seconds * (femtosPerSec % period : Nat) - rest * (period % nanosPerFemto : Nat)| ≤
        (femtosPerSec + (last - first) * period : Int)) ∧
    ((∀ first last, first < last → last < 2 ^ 40 → Accurate period first last) ↔
      1000000 * caughtUp period ≤ femtosPerSec + period) := by
  refine ⟨fun first last => ?_, caughtUp_of_accurate positive slow,
    fun fine _ _ before _ => accurate_of_caughtUp positive slow fine before⟩
  rw [accurate_iff]
  unfold ahead
  dsimp only
  ring_nf

/-- The usual period, of 14.318 MHz, is exact enough over the ticks of a whole second, and a period
of whole nanoseconds that divides the second loses nothing. -/
theorem whole_second_accurate :
    Accurate 69841279 0 14318179 ∧ Accurate 100000000 9999999 20000000 :=
  ⟨((hpet_accurate_iff (by decide) (by decide)).1 ..).mpr (by decide),
    (hpet_accurate_iff (by decide) (by decide)).2.mpr (by decide) _ _ (by decide) (by decide)⟩

/-- The usual period makes up for 12 milliseconds in one tick. -/
theorem last_tick_not_accurate : ¬ Accurate 69841279 14318178 14318179 := by
  unfold Accurate
  decide

end Emerald.Devices.Clock
