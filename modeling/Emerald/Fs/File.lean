
import Emerald.Devices.Pipe

/-!
# Open files

`File` and `FilesystemNode` of `kernel/src/fs/mod.rs`, over filesystems of any kind. What the
successive calls of `read_file` return is given as a list. A file in a blocking mode asks again
until it has what it waits for, so that a call may not have returned when the list ends.
-/

namespace Emerald.Fs

open Devices (BlockingMode FileAccess)

/-- How far a call has come. -/
inductive Progress (α : Type)
  | waits
  | panics
  | returns (value : α)
  deriving DecidableEq

/-- `File`. The filesystem, the path and the inode are one value, and so is the access helper. -/
structure File (ι η : Type) where
  inode : ι
  position : Nat
  isTerminal : Bool
  blockingMode : BlockingMode
  accessHelper : η
  fileAccess : FileAccess
  deriving DecidableEq

/-- `FilesystemNode`. -/
inductive FilesystemNode (ι η δ : Type)
  | file (file : File ι η)
  | directory (directory : δ)
  deriving DecidableEq

/-- What a call of `read_file` leaves: the bytes it put in the buffer, or an error, and the access
helper. -/
structure Answer (η : Type) where
  result : Except FileSystemError (List UInt8)
  accessHelper : η

namespace File
variable {ι η : Type}

/-- `is_blocking`. -/
def isBlocking (f : File ι η) : Bool := f.blockingMode != .none

/-- The file after a call of `read_file`. -/
def answered (f : File ι η) (a : Answer η) : File ι η := { f with accessHelper := a.accessHelper }

/-- `self.position += count`. -/
def advance (f : File ι η) (count : Nat) : File ι η :=
  { f with position := (f.position + count) % 2 ^ 64 }

/-- The loop of `BlockingMode::Line`, with what the buffer of `len` bytes has so far. The end of the
file returns early and leaves the position alone. -/
def readLine (len : Nat) : List (Answer η) → List UInt8 → File ι η →
    Progress (Except FileSystemError (List UInt8) × File ι η)
  | [], _, _ => .waits
  | a :: answers, buf, f =>
    match a.result with
    | .ok [char] =>
      -- a byte that does not fit is dropped
      let buf := if buf.length < len then buf ++ [char] else buf
      if char = 10 ∨ char = 0 then .returns (.ok buf, (f.answered a).advance buf.length)
      else readLine len answers buf (f.answered a)
    | .ok _ => readLine len answers buf (f.answered a)
    | .error .endOfFile => .returns (.ok buf, f.answered a)
    | .error e => .returns (.error e, f.answered a)

/-- The loop of `BlockingMode::Block`. -/
def readBlock : List (Answer η) → File ι η →
    Progress (Except FileSystemError (List UInt8) × File ι η)
  | [], _ => .waits
  | a :: answers, f =>
    match a.result with
    | .ok [] => readBlock answers (f.answered a)
    | .ok bytes => .returns (.ok bytes, (f.answered a).advance bytes.length)
    | .error .endOfFile => .returns (.ok [], f.answered a)
    | .error e => .returns (.error e, f.answered a)

/-- `BlockingMode::None`: one call. -/
def readOnce (answers : List (Answer η)) (f : File ι η) :
    Progress (Except FileSystemError (List UInt8) × File ι η) :=
  match answers with
  | [] => .waits
  | a :: _ =>
    match a.result with
    | .ok bytes => .returns (.ok bytes, (f.answered a).advance bytes.length)
    | .error e => .returns (.error e, f.answered a)

/-- `File::read` into a buffer of `len` bytes. -/
def read (len : Nat) (answers : List (Answer η)) (f : File ι η) :
    Progress (Except FileSystemError (List UInt8) × File ι η) :=
  if f.fileAccess.read then
    match f.blockingMode with
    | .none => readOnce answers f
    | .line => readLine len answers [] f
    | .block size => if size = 1 then readBlock answers f else .panics
  else .returns (.error .readNotSupported, f)

end File

end Emerald.Fs
