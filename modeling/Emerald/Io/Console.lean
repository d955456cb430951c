
import Emerald.Devices.Keyboard

/-!
# Reading from the console

`kernel/src/io/console.rs`: `LateConsole::read` takes characters from the keyboard and, where it has
none, from the serial port.
-/

namespace Emerald.Io

open Devices

/-- `LateConsole`, as far as it is read: the bytes the serial port holds ready and the events of the
keyboard that were not received yet. -/
structure LateConsole where
  uart : List UInt8
  keyboard : List Key
  deriving DecidableEq

/-- The character an event stands for. -/
def eventChar (key : Key) : Option UInt8 :=
  if key.pressed then key.virtualChar else none

namespace LateConsole

/-- `read_uart`: the port sends `\r` for the enter key and delete for backspace. -/
def readUart (console : LateConsole) : Option UInt8 × LateConsole :=
  match console.uart with
  | [] => (none, console)
  | byte :: rest =>
    (some (if byte = 0x0d then 0x0a else if byte = 0x7f then 0x08 else byte),
      { console with uart := rest })

/-- The condition of the loop. An event without a character has been received all the same. -/
def nextChar (console : LateConsole) : Option UInt8 × LateConsole :=
  match console.keyboard with
  | [] => console.readUart
  | key :: rest =>
    match eventChar key with
    | some char => (some char, { console with keyboard := rest })
    | none => readUart { console with keyboard := rest }

/-- `LateConsole::read`, by recursion on the part of `dst` that is not written yet: the number of
bytes written, the destination and the console. -/
def read : List UInt8 → LateConsole → Nat × List UInt8 × LateConsole
  | [], console => (0, [], console)
  | byte :: dst, console =>
    match console.nextChar with
    | (none, console) => (0, byte :: dst, console)
    | (some char, console) =>
      let (i, dst, console) := read dst console
      (i + 1, char :: dst, console)

end LateConsole

end Emerald.Io
