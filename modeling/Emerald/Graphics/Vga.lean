
import Emerald.Misc.Bytes
import Emerald.Misc.Loops

/-!
# The VGA display

`libraries/kernel_user_link/src/graphics.rs` and `kernel/src/graphics/vga.rs`: the geometry of a
framebuffer, the blit of a user buffer to the screen, and who owns the display. `none` is a panic;
an overflow is one, as in a build with overflow checks.
-/

namespace Emerald.Graphics

/-- `a + b` of `usize`. -/
def usizeAdd (a b : Nat) : Option Nat := if a + b < 2 ^ 64 then some (a + b) else none

/-- `a * b` of `usize`. -/
def usizeMul (a b : Nat) : Option Nat := if a * b < 2 ^ 64 then some (a * b) else none

/-- `assert!`. -/
def assertThat (check : Prop) [Decidable check] : Option Unit := if check then some () else none

/-- `Pixel`. -/
structure Pixel where
  r : UInt8
  g : UInt8
  b : UInt8
  deriving DecidableEq

structure FrameBufferInfo where
  pitch : Nat
  height : Nat
  width : Nat
  fieldPos : UInt8 × UInt8 × UInt8
  mask : UInt8 × UInt8 × UInt8
  bytePerPixel : UInt8
  usize : width < 2 ^ 64 ∧ height < 2 ^ 64
  deriving DecidableEq

/-- A slice of bytes: its length and its contents. -/
structure Buffer where
  len : Nat
  byte : Nat → UInt8

/-- `&buffer[start..start + n]`. -/
def Buffer.slice (buffer : Buffer) (start n : Nat) : Option (List UInt8) := do
  let last ← usizeAdd start n
  assertThat (last ≤ buffer.len)
  some (readBytes buffer.byte start n)

/-- The buffer with the bytes from `start` on replaced. -/
def Buffer.write (buffer : Buffer) (start : Nat) (new : List UInt8) : Buffer :=
  { buffer with byte := writeBytes buffer.byte start new }

/-- `buffer[start..start + new.len()].copy_from_slice(new)`. -/
def Buffer.copyFromSlice (buffer : Buffer) (start : Nat) (new : List UInt8) : Option Buffer := do
  let last ← usizeAdd start new.length
  assertThat (last ≤ buffer.len)
  some (buffer.write start new)

namespace FrameBufferInfo
variable (info : FrameBufferInfo)

/-- `memory_size`. -/
def memorySize : Option Nat := usizeMul info.pitch info.height

/-- `get_arr_pos`: `some none` is a position that is out of bounds. -/
def getArrPos (pos : Nat × Nat) : Option (Option Nat) :=
  if pos.1 ≥ info.width ∨ pos.2 ≥ info.height then some none
  else do
    let column ← usizeMul pos.1 info.bytePerPixel.toNat
    let row ← usizeMul pos.2 info.pitch
    let i ← usizeAdd column row
    some (some i)

/-- `read_pixel`, with the indexing of `pixel_mem`. -/
def readPixel (memory : Buffer) (pos : Nat × Nat) : Option (Option Pixel) := do
  match ← info.getArrPos pos with
  | none => some none
  | some i =>
    let pixelMem ← memory.slice i info.bytePerPixel.toNat
    let r ← pixelMem[info.fieldPos.1.toNat]?
    let g ← pixelMem[info.fieldPos.2.1.toNat]?
    let b ← pixelMem[info.fieldPos.2.2.toNat]?
    some (some ⟨r, g, b⟩)

/-- `pixel_mem[pos] = value` in the slice of the pixel at `i`. -/
def setField (i : Nat) (pos : UInt8) (value : UInt8) (memory : Buffer) : Option Buffer := do
  assertThat (pos.toNat < info.bytePerPixel.toNat)
  some (memory.write (i + pos.toNat) [value])

/-- `write_pixel`, with the indexing of `pixel_mem_mut`. -/
def writePixel (memory : Buffer) (pos : Nat × Nat) (color : Pixel) : Option (Option Buffer) := do
  match ← info.getArrPos pos with
  | none => some none
  | some i =>
    let _ ← memory.slice i info.bytePerPixel.toNat
    let memory ← info.setField i info.fieldPos.1 (color.r &&& info.mask.1) memory
    let memory ← info.setField i info.fieldPos.2.1 (color.g &&& info.mask.2.1) memory
    let memory ← info.setField i info.fieldPos.2.2 (color.b &&& info.mask.2.2) memory
    some (some memory)

end FrameBufferInfo

/-- `VgaDisplay`, with what `new` makes of the framebuffer that multiboot describes in `u32`s. -/
structure VgaDisplay where
  fbInfo : FrameBufferInfo
  memory : Buffer
  small : fbInfo.width < 2 ^ 32 ∧ fbInfo.pitch * fbInfo.height < 2 ^ 32
  covers : memory.len = fbInfo.pitch * fbInfo.height

/-- The source of a blit: the buffer, what it holds, and the corner of the region. -/
structure Source where
  buffer : Buffer
  info : FrameBufferInfo
  x : Nat
  y : Nat

variable (fbInfo : FrameBufferInfo)

/-- One line of `blit_fast`. -/
def blitFastLine (src : Source) (dest : Nat × Nat) (chunkSize y : Nat)
    (memory : Buffer) : Option Buffer := do
  let srcY ← usizeAdd src.y y
  let srcI ← (src.info.getArrPos (src.x, srcY)).join
  let destY ← usizeAdd dest.2 y
  let destI ← (fbInfo.getArrPos (dest.1, destY)).join
  let srcLine ← src.buffer.slice srcI chunkSize
  memory.copyFromSlice destI srcLine

/-- One pixel of `blit_slow`. -/
def blitSlowPixel (src : Source) (dest : Nat × Nat) (x y : Nat)
    (memory : Buffer) : Option Buffer := do
  let srcX ← usizeAdd src.x x
  let srcY ← usizeAdd src.y y
  let srcPixel ← (src.info.readPixel src.buffer (srcX, srcY)).join
  let destX ← usizeAdd dest.1 x
  let destY ← usizeAdd dest.2 y
  (fbInfo.writePixel memory (destX, destY) srcPixel).join

/-- One line of `blit_slow`. -/
def blitSlowLine (src : Source) (dest : Nat × Nat) (width y : Nat)
    (memory : Buffer) : Option Buffer :=
  forRange (fun x => blitSlowPixel fbInfo src dest x y) width 0 memory

/-- `assert!(start + size <= limit)`. -/
def assertWithin (start size limit : Nat) : Option Unit := do
  let last ← usizeAdd start size
  assertThat (last ≤ limit)

/-- The pixels of the two framebuffers look the same. -/
def sameFormat (a b : FrameBufferInfo) : Prop :=
  a.bytePerPixel = b.bytePerPixel ∧ a.fieldPos = b.fieldPos ∧ a.mask = b.mask

instance (a b : FrameBufferInfo) : Decidable (sameFormat a b) :=
  inferInstanceAs (Decidable (_ ∧ _))

/-- `blit_fast`. -/
def blitFast (memory : Buffer) (src : Source) (dest : Nat × Nat)
    (width height : Nat) : Option Buffer := do
  assertWithin src.x width src.info.width
  assertWithin src.y height src.info.height
  assertWithin dest.1 width fbInfo.width
  assertWithin dest.2 height fbInfo.height
  let chunkSize ← usizeMul width fbInfo.bytePerPixel.toNat
  forRange (blitFastLine fbInfo src dest chunkSize) height 0 memory

/-- `blit_slow`. -/
def blitSlow (memory : Buffer) (src : Source) (dest : Nat × Nat)
    (width height : Nat) : Option Buffer := do
  assertWithin dest.1 width fbInfo.width
  assertWithin dest.2 height fbInfo.height
  assertWithin src.x width src.info.width
  assertWithin src.y height src.info.height
  forRange (blitSlowLine fbInfo src dest width) height 0 memory

/-- `blit`: what the memory of the display holds after it. -/
def blit (memory : Buffer) (src : Source) (dest : Nat × Nat) (width height : Nat) : Option Buffer :=
  if sameFormat fbInfo src.info then blitFast fbInfo memory src dest width height
  else blitSlow fbInfo memory src dest width height

/-- The display with other contents of its memory. -/
def VgaDisplay.withBytes (display : VgaDisplay) (byte : Nat → UInt8) : VgaDisplay :=
  { display with memory := { display.memory with byte := byte } }

/-- `VgaDisplay::blit`. -/
def VgaDisplay.blit (display : VgaDisplay) (src : Source) (dest : Nat × Nat)
    (width height : Nat) : Option VgaDisplay := do
  let memory ← Graphics.blit display.fbInfo display.memory src dest width height
  some (display.withBytes memory.byte)

/-! ## Copies within the screen -/

/-- The copy of one line in `memory.split_at_mut(src_i)`: the line starts the part behind the split
and is written to the part before it. -/
def copyAcrossSplit (chunkSize srcI destI : Nat) (memory : Buffer) : Option Buffer := do
  assertThat (srcI ≤ memory.len)
  let last ← usizeAdd destI chunkSize
  assertThat (last ≤ srcI)
  assertThat (chunkSize ≤ memory.len - srcI)
  some (memory.write destI (readBytes memory.byte srcI chunkSize))

/-- `copy_handler_src_after`. -/
def copyHandlerSrcAfter : Nat → Nat → Nat → Buffer → Option Buffer := copyAcrossSplit

/-- `copy_handler_src_before`, which has the body of the other handler. -/
def copyHandlerSrcBefore : Nat → Nat → Nat → Buffer → Option Buffer := copyAcrossSplit

/-- One line of `blit_inner_ranges`. -/
def blitInnerLine (src dest : Nat × Nat)
    (copyHandler : Nat → Nat → Buffer → Option Buffer) (y : Nat) (memory : Buffer) :
    Option Buffer := do
  let srcY ← usizeAdd src.2 y
  let srcI ← (fbInfo.getArrPos (src.1, srcY)).join
  let destY ← usizeAdd dest.2 y
  let destI ← (fbInfo.getArrPos (dest.1, destY)).join
  copyHandler srcI destI memory

/-- "assert no overlap". -/
def NoOverlap (src dest : Nat × Nat) (width height : Nat) : Prop :=
  src.1 + width ≤ dest.1 ∨ dest.1 + width ≤ src.1 ∨
    src.2 + height ≤ dest.2 ∨ dest.2 + height ≤ src.2

instance (src dest : Nat × Nat) (width height : Nat) :
    Decidable (NoOverlap src dest width height) :=
  inferInstanceAs (Decidable (_ ∨ _))

/-- `src_y * pitch + src_x`, which takes the column for a byte. -/
def mixedPosition (pos : Nat × Nat) : Option Nat := do
  let row ← usizeMul pos.2 fbInfo.pitch
  usizeAdd row pos.1

/-- `blit_inner_ranges`: what the memory of the display holds after it. -/
def VgaDisplay.blitInnerRanges (display : VgaDisplay) (src dest : Nat × Nat)
    (width height : Nat) : Option Buffer := do
  assertWithin src.1 width display.fbInfo.width
  assertWithin src.2 height display.fbInfo.height
  assertWithin dest.1 width display.fbInfo.width
  assertWithin dest.2 height display.fbInfo.height
  assertThat (NoOverlap src dest width height)
  let chunkSize ← usizeMul width display.fbInfo.bytePerPixel.toNat
  let srcAt ← mixedPosition display.fbInfo src
  let destAt ← mixedPosition display.fbInfo dest
  let copyHandler :=
    if destAt < srcAt then copyHandlerSrcAfter chunkSize else copyHandlerSrcBefore chunkSize
  forRange (blitInnerLine display.fbInfo src dest copyHandler) height 0 display.memory

/-! ## Ownership -/

/-- `VgaDisplayController`. -/
structure VgaDisplayController where
  display : VgaDisplay
  /-- -1 is the kernel. -/
  ownerProcess : Int

/-- `pid as i64`. -/
def pidAsI64 (pid : Nat) : Int := (BitVec.ofNat 64 pid).toInt

namespace VgaDisplayController
variable (controller : VgaDisplayController)

/-- `lock_process`: whether the process may draw. -/
def lockProcess (pid : Nat) : Bool := controller.ownerProcess = pidAsI64 pid

/-- `compare_exchange` of the owner. -/
def compareExchange (current new : Int) : Bool × VgaDisplayController :=
  if controller.ownerProcess = current then (true, { controller with ownerProcess := new })
  else (false, controller)

/-- `take_ownership`. -/
def takeOwnership (pid : Nat) : Option (Bool × VgaDisplayController) := do
  assertThat (pid < 2 ^ 63 - 1)
  some (controller.compareExchange (-1) (pidAsI64 pid))

/-- `release`. -/
def release (pid : Nat) : Option (Bool × VgaDisplayController) := do
  assertThat (pid < 2 ^ 63 - 1)
  some (controller.compareExchange (pidAsI64 pid) (-1))

end VgaDisplayController

end Emerald.Graphics
