
import Emerald.Io.Console

/-!
# Which characters a read of the console delivers

An event without a character ends a read of the console like an empty queue does, so a read sees the
queue only up to the first such event.
-/

namespace Emerald.Io
variable {events : List Key} {dst : List UInt8} {key : Key}

open Devices

/-- The read of a console without serial input delivers the characters of the queue in order, and
stops only when the destination is full or no event is left. -/
def Delivers (dst : List UInt8) (events : List Key) : Prop :=
  let (i, written, console) := LateConsole.read dst ⟨[], events⟩
  written.take i = (events.filterMap eventChar).take dst.length ∧
    (i = dst.length ∨ console.keyboard = [])

instance (dst : List UInt8) (events : List Key) : Decidable (Delivers dst events) :=
  inferInstanceAs (Decidable (_ ∧ _))

/-- The events before the first one without a character. -/
def typed (events : List Key) : List Key := events.takeWhile fun key => (eventChar key).isSome

/-- An event without a character ends the read. -/
theorem delivers_cons_of_none {byte : UInt8}
    (char : eventChar key = none) : Delivers (byte :: dst) (key :: events) ↔ events = [] := by
  simp only [Delivers, LateConsole.read, LateConsole.nextChar, LateConsole.readUart, char,
    List.filterMap_cons_none char, List.length_cons]
  constructor
  · rintro ⟨-, full | empty⟩
    · omega
    · exact empty
  · rintro rfl
    simp

/-- An event with a character is written, and the read goes on with the rest. -/
theorem delivers_cons_of_some {char byte : UInt8} (found : eventChar key = some char) :
    Delivers (byte :: dst) (key :: events) ↔ Delivers dst events := by
  simp only [Delivers, LateConsole.read, LateConsole.nextChar, found,
    List.filterMap_cons_some found, List.length_cons, List.take_succ_cons, List.cons.injEq,
    true_and, Nat.add_right_cancel_iff]

/-- A read is not cut short exactly when the destination is full before the first event without a
character, or no event comes after that one. -/
theorem delivers_iff (dst : List UInt8) (events : List Key) :
    Delivers dst events ↔
      dst.length ≤ (typed events).length ∨ events.length ≤ (typed events).length + 1 := by
  induction dst generalizing events with
  | nil => simp [Delivers, LateConsole.read]
  | cons byte dst ih =>
    cases events with
    | nil => simp [Delivers, LateConsole.read, LateConsole.nextChar, LateConsole.readUart]
    | cons key events =>
      cases char : eventChar key with
      | none =>
        rw [delivers_cons_of_none char, ← List.length_eq_zero_iff]
        have none_typed : typed (key :: events) = [] := by simp [typed, char]
        simp only [none_typed, List.length_cons, List.length_nil]
        omega
      | some char' =>
        rw [delivers_cons_of_some char, ih events]
        have one_more : typed (key :: events) = key :: typed events := by simp [typed, char]
        simp only [one_more, List.length_cons]
        omega

/-- The release of `a` before the press of `b` hides the `b`: the read returns nothing, and the next
read would find it. -/
theorem release_hides_press :
    LateConsole.read [0, 0] ⟨[], [⟨false, 0, .a⟩, ⟨true, 0, .b⟩]⟩ =
        (0, [0, 0], ⟨[], [⟨true, 0, .b⟩]⟩) ∧
      eventChar ⟨true, 0, .b⟩ = some 'b'.toUInt8 ∧
      ¬ Delivers [0, 0] [⟨false, 0, .a⟩, ⟨true, 0, .b⟩] := by
  decide

end Emerald.Io
