
import Mathlib

/-!
# Keys

`libraries/kernel_user_link/src/keyboard.rs`: the keys, their characters and the events a reader of
the keyboard receives.
-/

namespace Emerald.Devices

/-- `modifier::SHIFT`. -/
def modifierShift : BitVec 8 := 1#8 <<< 0

/-- `KeyType`: the keys with a scan code of one byte, in the order of their codes, and then the
extended ones. -/
inductive KeyType where
  | none1 | escape | num1 | num2 | num3 | num4 | num5 | num6 | num7 | num8 | num9 | num0 | minus
  | equals | backspace | tab | q | w | e | r | t | y | u | i | o | p | leftBracket | rightBracket
  | enter | leftCtrl | a | s | d | f | g | h | j | k | l | semicolon | singleQuote | backtick
  | leftShift | backslash | z | x | c | v | b | n | m | comma | dot | slash | rightShift
  | keypadAsterisk | leftAlt | space | capsLock | f1 | f2 | f3 | f4 | f5 | f6 | f7 | f8 | f9 | f10
  | numLock | scrollLock | keypad7 | keypad8 | keypad9 | keypadMinus | keypad4 | keypad5 | keypad6
  | keypadPlus | keypad1 | keypad2 | keypad3 | keypad0 | keypadDot | none2 | none3 | none4 | f11
  | f12
  | multimediaPreviousTrack | multimediaNextTrack | keypadEnter | rightCtrl | multimediaMute
  | calculator | multimediaPlayPause | multimediaStop | volumeDown | volumeUp | wwwHome
  | keypadSlash | rightAlt | home | upArrow | pageUp | leftArrow | rightArrow | «end» | downArrow
  | pageDown | insert | delete | leftGUI | rightGUI | application | power | sleep | wake
  | wwwSearch | wwwFavorites | wwwRefresh | wwwStop | wwwForward | wwwBack | myComputer | email
  | multimediaSelect
  deriving DecidableEq

/-- `Key`, the event of a key. -/
structure Key where
  pressed : Bool
  modifiers : BitVec 8
  keyType : KeyType
  deriving DecidableEq

/-- The characters of a part of a table and the zeros behind them. -/
def charsAndZeros (chars : List Char) (zeros : Nat) : List UInt8 :=
  chars.map Char.toUInt8 ++ List.replicate zeros 0

/-- `US_KEYTYPE_KEYMAP`. -/
def usKeytypeKeymap : List UInt8 :=
  charsAndZeros
    ['\x00', '\x1b', '1', '2', '3', '4', '5', '6', '7', '8', '9', '0', '-', '=', '\x08', '\t', 'q',
      'w', 'e', 'r', 't', 'y', 'u', 'i', 'o', 'p', '[', ']', '\n', '\x00', 'a', 's', 'd', 'f', 'g',
      'h', 'j', 'k', 'l', ';', '\x27', '\x60', '\x00', '\\', 'z', 'x', 'c', 'v', 'b', 'n', 'm', ',',
      '.', '/', '\x00', '*', '\x00', ' '] 13 ++
    charsAndZeros ['7', '8', '9', '-', '4', '5', '6', '+', '1', '2', '3', '0', '.'] 7 ++
    charsAndZeros ['\n'] 8 ++ charsAndZeros ['/'] 26

/-- `US_KEYTYPE_KEYMAP_SHIFTED`. -/
def usKeytypeKeymapShifted : List UInt8 :=
  charsAndZeros
    ['\x00', '\x1b', '!', '@', '#', '$', '%', '^', '&', '*', '(', ')', '_', '+', '\x08', '\t', 'Q',
      'W', 'E', 'R', 'T', 'Y', 'U', 'I', 'O', 'P', '\x7b', '\x7d', '\n', '\x00', 'A', 'S', 'D', 'F',
      'G', 'H', 'J', 'K', 'L', ':', '\x22', '~', '\x00', '|', 'Z', 'X', 'C', 'V', 'B', 'N', 'M',
      '<', '>', '?', '\x00', '*', '\x00', ' '] 16 ++
    charsAndZeros ['-', '\x00', '5', '\x00', '+'] 48

/-- The table `virtual_key` reads. -/
def mappings (shifted : Bool) : List UInt8 :=
  if shifted then usKeytypeKeymapShifted else usKeytypeKeymap

/-- The assertion of `virtual_key` holds of every key: both tables have an entry for it. -/
theorem KeyType.ctorIdx_lt_length (key : KeyType) (shifted : Bool) :
    key.ctorIdx < (mappings shifted).length := by
  have length : (mappings shifted).length = 127 := by cases shifted <;> rfl
  rw [length]
  cases key <;> decide

/-- `KeyType::virtual_key`. -/
def KeyType.virtualKey (key : KeyType) (shifted : Bool) : Option UInt8 :=
  let value := (mappings shifted).get ⟨key.ctorIdx, key.ctorIdx_lt_length shifted⟩
  if value = 0 then none else some value

/-- `Key::virtual_char`. -/
def Key.virtualChar (key : Key) : Option UInt8 :=
  key.keyType.virtualKey (key.modifiers &&& modifierShift != 0)

end Emerald.Devices
