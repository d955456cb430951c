
import Emerald.Graphics.Vga
import Emerald.Process.Syscalls

/-!
# The graphics system call

`sys_graphics` of `kernel/src/process/syscalls/mod.rs`. What the memory of the process holds at an
address is given beside its page tables. `none` is a panic.
-/

namespace Emerald.Process

open Graphics
open MemoryManagement (PhysicalMemory VirtualMemoryMapper)

/-- `GraphicsCommand`. -/
inductive GraphicsCommand where
  | takeOwnership
  | releaseOwnership
  | getFrameBufferInfo
  | blit
  deriving DecidableEq

/-- `GraphicsCommand::from_u64`. -/
def GraphicsCommand.fromU64 (value : Nat) : Option GraphicsCommand :=
  match value with
  | 0 => some .takeOwnership
  | 1 => some .releaseOwnership
  | 2 => some .getFrameBufferInfo
  | 3 => some .blit
  | _ => none

/-- `BlitCommand`. -/
structure BlitCommand where
  memory : Nat
  srcFramebufferInfo : FrameBufferInfo
  src : Nat × Nat
  dst : Nat × Nat
  size : Nat × Nat

/-- `size_of::<BlitCommand>()`. -/
def sizeOfBlitCommand : Nat := 88

/-- `size_of::<FrameBufferInfo>()`. -/
def sizeOfFrameBufferInfo : Nat := 32

/-- The memory of the process that calls. -/
structure UserMemory where
  vm : VirtualMemoryMapper
  tables : PhysicalMemory
  byte : Nat → UInt8
  blitCommand : Nat → BlitCommand

/-- The result of `sys_graphics`, the controller after it, and what it writes for the process. -/
structure GraphicsOutcome where
  result : SyscallResult
  controller : Option VgaDisplayController
  written : Option (Nat × FrameBufferInfo)

/-- A call that fails and changes nothing. -/
def GraphicsOutcome.fails (controller : Option VgaDisplayController) (error : SyscallError) :
    GraphicsOutcome := ⟨.error error, controller, none⟩

/-- `TakeOwnership` and `ReleaseOwnership`, which try to change the owner. -/
def changeOwner (controller : Option VgaDisplayController) (refusal : SyscallError)
    (change : VgaDisplayController → Option (Bool × VgaDisplayController)) :
    Option GraphicsOutcome :=
  match controller with
  | none => some (.fails controller .graphicsNotAvailable)
  | some c => do
    let (changed, c) ← change c
    some (if changed then ⟨.ok 0#64, some c, none⟩ else .fails (some c) refusal)

variable (user : UserMemory)

/-- `GetFrameBufferInfo`. -/
def getFrameBufferInfo (extra : Nat) (controller : Option VgaDisplayController) : GraphicsOutcome :=
  match controller with
  | none => .fails controller .graphicsNotAvailable
  | some c =>
    match ptrAsMut user.vm user.tables sizeOfFrameBufferInfo extra with
    | .error err => .fails controller (toArgErr1 err)
    | .ok infoPtr => ⟨.ok 0#64, controller, some (infoPtr, c.display.fbInfo)⟩

/-- The buffer a blit reads from. -/
def UserMemory.source (slice : UserSlice) (blit : BlitCommand) : Source where
  buffer := { len := slice.len, byte := fun i => user.byte (slice.start + i) }
  info := blit.srcFramebufferInfo
  x := blit.src.1
  y := blit.src.2

/-- `Blit`. -/
def sysBlit (extra pid : Nat) (controller : Option VgaDisplayController) : Option GraphicsOutcome :=
  match ptrAsRef user.vm user.tables sizeOfBlitCommand extra with
  | .error err => some (.fails controller (toArgErr1 err))
  | .ok ptr => do
    let blit := user.blitCommand ptr
    let bufferLen ← blit.srcFramebufferInfo.memorySize
    match sysArgToSlice user.vm user.tables 1 blit.memory bufferLen with
    | .error _ => some (.fails controller .invalidGraphicsBuffer)
    | .ok slice =>
      match controller with
      | none => some (.fails controller .graphicsNotAvailable)
      | some c =>
        if c.lockProcess pid then do
          let display ← c.display.blit (user.source slice blit) blit.dst blit.size.1 blit.size.2
          some ⟨.ok 0#64, some { c with display := display }, none⟩
        else some (.fails controller .graphicsNotOwned)

/-- `sys_graphics`, with the arguments in `rcx` and `rdx`. -/
def sysGraphics (commandId extra pid : Nat)
    (controller : Option VgaDisplayController) : Option GraphicsOutcome :=
  match GraphicsCommand.fromU64 commandId with
  | none => some (.fails controller (toArgErr0 .generalInvalid))
  | some .takeOwnership =>
    changeOwner controller .graphicsAlreadyTaken fun c => c.takeOwnership pid
  | some .releaseOwnership => changeOwner controller .graphicsNotOwned fun c => c.release pid
  | some .getFrameBufferInfo => some (getFrameBufferInfo user extra controller)
  | some .blit => sysBlit user extra pid controller

end Emerald.Process
