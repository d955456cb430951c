
import Emerald.Fs.Node
import Emerald.Misc.Reachable

/-!
# Pipes

`kernel/src/devices/pipe.rs`, and the part of `File` in `kernel/src/fs/mod.rs` through which the
two sides of a pipe are used. The sides share one buffer behind a lock; each counts its handles in
an atomic counter. What happens under the lock, or in one access to a counter, is one step, so the
runs below are the interleavings of the handles. The bytes accepted and delivered so far are kept
beside the state. `none` is a panic, or a call on a handle that does not exist.
-/

namespace Emerald.Devices

open Fs (FileSystemError)

/-- `InnerPipe`. The buffer has its front first. -/
structure InnerPipe where
  buffer : List UInt8
  readSideAvailable : Bool
  writeSideAvailable : Bool
  deriving DecidableEq

/-- `PipeSide`, without the pipe it shares with the other side. The counter counts objects in
memory, so it does not overflow. -/
structure PipeSide where
  isReadSide : Bool
  clones : Nat
  deriving DecidableEq

/-- The loop of `PipeSide::read`: `pop_back` for each byte of `buf`. -/
def popBytes : Nat → List UInt8 → List UInt8 × List UInt8
  | 0, buffer => ([], buffer)
  | len + 1, buffer =>
    match buffer.getLast? with
    | some byte =>
      let (bytes, rest) := popBytes len buffer.dropLast
      (byte :: bytes, rest)
    | none => ([], buffer)

namespace PipeSide
variable (side : PipeSide)

/-- `read` into a buffer of `len` bytes; the result has the bytes put there. -/
def read (pipe : InnerPipe) (len : Nat) :
    Except FileSystemError (List UInt8) × InnerPipe :=
  if side.isReadSide = false then (.error .readNotSupported, pipe)
  else if pipe.writeSideAvailable = false ∧ pipe.buffer = [] then (.error .endOfFile, pipe)
  else
    let (bytes, rest) := popBytes len pipe.buffer
    (.ok bytes, { pipe with buffer := rest })

/-- `write`: `push_front` for each byte of `buf`. -/
def write (pipe : InnerPipe) (buf : List UInt8) :
    Except FileSystemError Nat × InnerPipe :=
  if side.isReadSide then (.error .writeNotSupported, pipe)
  else if pipe.readSideAvailable = false then (.error .endOfFile, pipe)
  else
    let buffer := buf.foldl (fun buffer byte => byte :: buffer) pipe.buffer
    (.ok buf.length, { pipe with buffer := buffer })

/-- The `fetch_sub` of `close`, and whether the side has to be closed. -/
def closeHandle : Bool × PipeSide :=
  (side.clones == 1, { side with clones := side.clones - 1 })

/-- What `close` does under the lock. -/
def closeSide (pipe : InnerPipe) : InnerPipe :=
  if side.isReadSide then { pipe with readSideAvailable := false }
  else { pipe with writeSideAvailable := false }

/-- `clone_device`. -/
def cloneDevice : PipeSide := { side with clones := side.clones + 1 }

end PipeSide

/-- `BlockingMode`. -/
inductive BlockingMode
  | none
  | line
  | block (size : Nat)
  deriving DecidableEq

/-- `FileAccess`. -/
structure FileAccess where
  read : Bool
  write : Bool
  deriving DecidableEq

/-- `File` with a pipe as its device: the side in its inode, and the fields that `read` and `write`
use. -/
structure PipeFile where
  isReadSide : Bool
  position : Nat
  blockingMode : BlockingMode
  fileAccess : FileAccess
  deriving DecidableEq

/-- The files of a pipe, what their sides share, the calls of `close` that still have to take the
lock, and all bytes written and read. -/
structure Pipe where
  inner : InnerPipe
  readDevice : PipeSide
  writeDevice : PipeSide
  files : List PipeFile
  closing : List Bool
  accepted : List UInt8
  delivered : List UInt8
  deriving DecidableEq

/-- `create_pipe_pair`. -/
def createPipePair : Pipe where
  inner := ⟨[], true, true⟩
  readDevice := ⟨true, 1⟩
  writeDevice := ⟨false, 1⟩
  files := [⟨true, 0, .block 1, ⟨true, false⟩⟩, ⟨false, 0, .none, ⟨false, true⟩⟩]
  closing := []
  accepted := []
  delivered := []

/-- One round of the loop of `File::read`: it returns, or goes on with these bytes in the buffer. -/
inductive ReadRound
  | returned (result : Except FileSystemError Nat)
  | again (got : List UInt8)

namespace PipeFile

/-- A round of `File::read` with a buffer of `len` bytes that has `got` so far: the bytes it puts
there, its outcome, and the pipe afterwards. -/
def read (f : PipeFile) (device : PipeSide) (pipe : InnerPipe) (len : Nat) (got : List UInt8) :
    Option (List UInt8 × ReadRound × InnerPipe) :=
  if f.fileAccess.read = false then some ([], .returned (.error .readNotSupported), pipe)
  else
    match f.blockingMode with
    | .none =>
      match device.read pipe len with
      | (.ok bytes, pipe) => some (bytes, .returned (.ok bytes.length), pipe)
      | (.error e, pipe) => some ([], .returned (.error e), pipe)
    | .line =>
      match device.read pipe 1 with
      | (.ok (byte :: _), pipe) =>
        -- a byte that does not fit is dropped
        let put := if got.length < len then [byte] else []
        if byte = 10 ∨ byte = 0 then some (put, .returned (.ok (got ++ put).length), pipe)
        else some (put, .again (got ++ put), pipe)
      | (.ok [], pipe) => some ([], .again got, pipe)
      | (.error .endOfFile, pipe) => some ([], .returned (.ok got.length), pipe)
      | (.error e, pipe) => some ([], .returned (.error e), pipe)
    | .block size =>
      if size = 1 then
        match device.read pipe len with
        | (.ok [], pipe) => some ([], .again [], pipe)
        | (.ok bytes, pipe) => some (bytes, .returned (.ok bytes.length), pipe)
        | (.error .endOfFile, pipe) => some ([], .returned (.ok 0), pipe)
        | (.error e, pipe) => some ([], .returned (.error e), pipe)
      else none

/-- `position += count` of a call that returns. -/
def advance (f : PipeFile) : Except FileSystemError Nat → PipeFile
  | .ok count => { f with position := (f.position + count) % 2 ^ 64 }
  | .error _ => f

/-- `File::write`. -/
def write (f : PipeFile) (device : PipeSide) (pipe : InnerPipe) (buf : List UInt8) :
    Except FileSystemError Nat × InnerPipe :=
  if f.fileAccess.write then device.write pipe buf else (.error .writeNotSupported, pipe)

/-- `clone_inherit`. -/
def cloneInherit (f : PipeFile) : PipeFile := { f with position := 0 }

end PipeFile

namespace Pipe
variable (p : Pipe)

/-- The device of a file. -/
def device (isReadSide : Bool) : PipeSide :=
  if isReadSide then p.readDevice else p.writeDevice

def setDevice (isReadSide : Bool) (device : PipeSide) : Pipe :=
  if isReadSide then { p with readDevice := device } else { p with writeDevice := device }

/-- A round of `File::read` on the handle with this index. -/
def read (p : Pipe) (index len : Nat) (got : List UInt8) : Option (ReadRound × Pipe) := do
  let f ← p.files[index]?
  let (bytes, round, inner) ← f.read (p.device f.isReadSide) p.inner len got
  let f := match round with
    | .returned result => f.advance result
    | .again _ => f
  some (round, { p with
    inner := inner, files := p.files.set index f, delivered := p.delivered ++ bytes })

/-- The bytes that a `write` with this result has written. -/
def acceptedBytes (buf : List UInt8) : Except FileSystemError Nat → List UInt8
  | .ok written => buf.take written
  | .error _ => []

/-- `File::write`. -/
def write (p : Pipe) (index : Nat) (buf : List UInt8) :
    Option (Except FileSystemError Nat × Pipe) := do
  let f ← p.files[index]?
  let (result, inner) := f.write (p.device f.isReadSide) p.inner buf
  some (result, { p with
    inner := inner, files := p.files.set index (f.advance result),
    accepted := p.accepted ++ acceptedBytes buf result })

/-- `clone_inherit`. -/
def clone (index : Nat) : Option Pipe := do
  let f ← p.files[index]?
  let p := p.setDevice f.isReadSide (p.device f.isReadSide).cloneDevice
  some { p with files := f.cloneInherit :: p.files }

/-- The drop of a `File` drops its inode, which calls `close`. -/
def drop (index : Nat) : Option Pipe := do
  let f ← p.files[index]?
  let (last, device) := (p.device f.isReadSide).closeHandle
  let p := p.setDevice f.isReadSide device
  some { p with
    files := p.files.eraseIdx index
    closing := if last then f.isReadSide :: p.closing else p.closing }

/-- The rest of a call of `close`. -/
def finishClose (isReadSide : Bool) : Option Pipe :=
  if isReadSide ∈ p.closing then
    some { p with
      inner := (p.device isReadSide).closeSide p.inner
      closing := p.closing.erase isReadSide }
  else none

end Pipe

/-- The steps of the handles of a pipe. -/
inductive PipeCall
  | read (index len : Nat) (got : List UInt8)
  | write (index : Nat) (buf : List UInt8)
  | clone (index : Nat)
  | drop (index : Nat)
  | finishClose (isReadSide : Bool)

namespace Pipe

def step (p : Pipe) : PipeCall → Option Pipe
  | .read index len got => (p.read index len got).map Prod.snd
  | .write index buf => (p.write index buf).map Prod.snd
  | .clone index => p.clone index
  | .drop index => p.drop index
  | .finishClose isReadSide => p.finishClose isReadSide

/-- The states of a pipe over all interleavings of its handles. -/
def Reached : Pipe → Prop :=
  Reachable (fun p call q => p.step call = some q) (fun _ _ => True) (· = createPipePair)

/-- The number of live handles of a side. -/
def live (p : Pipe) (isReadSide : Bool) : Nat := p.files.countP (·.isReadSide == isReadSide)

end Pipe

end Emerald.Devices
