
import Emerald.Graphics.Proofs.Blit
import Emerald.Process.Proofs.UserPointers
import Emerald.Process.SysGraphics

/-!
# Blits of a process

A `Blit` of a process that owns the display goes through without a panic exactly if its region lies
in both framebuffers; `sys_graphics` does not check that itself. What it draws stays in the
destination rectangle.
-/

namespace Emerald.Process

open Graphics

variable {src : Source} {dest : Nat × Nat}

/-- The memory of a blit is a buffer of user pages, of the size of its framebuffer. -/
def UserBuffer (user : UserMemory) (blit : BlitCommand) : Prop :=
  RangeUserMapped user.vm user.tables blit.memory
    (blit.srcFramebufferInfo.pitch * blit.srcFramebufferInfo.height)

/-- The checks of the two pointers of a blit pass. -/
def BlitAccepted (user : UserMemory) (extra : Nat) : Prop :=
  (∃ ptr, ptrAsRef user.vm user.tables sizeOfBlitCommand extra = .ok ptr) ∧
    ∃ slice, sysArgToSlice user.vm user.tables 1 (user.blitCommand extra).memory
      ((user.blitCommand extra).srcFramebufferInfo.pitch *
        (user.blitCommand extra).srcFramebufferInfo.height) = .ok slice

/-- Only the given bytes of the screen have changed. -/
inductive DrawsWithin (S : FrameBufferInfo → Nat → Prop) :
    Option VgaDisplayController → Option VgaDisplayController → Prop
  | absent : DrawsWithin S none none
  | present {c c' : VgaDisplayController} (owner : c'.ownerProcess = c.ownerProcess)
      (info : c'.display.fbInfo = c.display.fbInfo)
      (memory : Within (S c.display.fbInfo) c.display.memory c'.display.memory) :
      DrawsWithin S (some c) (some c')

theorem DrawsWithin.refl (S : FrameBufferInfo → Nat → Prop)
    (controller : Option VgaDisplayController) : DrawsWithin S controller controller := by
  cases controller with
  | none => exact .absent
  | some c => exact .present rfl rfl (Within.refl _ _)

section
variable {user : UserMemory} {extra pid : Nat} {controller : Option VgaDisplayController}
variable {width height : Nat}

/-- A buffer of user pages does not fill the address space. -/
theorem UserBuffer.size_lt {blit : BlitCommand} (buffer : UserBuffer user blit) :
    blit.srcFramebufferInfo.pitch * blit.srcFramebufferInfo.height < 2 ^ 64 := by
  obtain ⟨ends, mapped⟩ := buffer
  by_contra large
  have gap := (mapped (2 ^ 47) (by omega)).1
  unfold Canonical at gap
  omega

theorem sysArgToSlice_len {vm : MemoryManagement.VirtualMemoryMapper}
    {memory : MemoryManagement.PhysicalMemory} {sizeOf buf len : Nat} {slice : UserSlice}
    (checked : sysArgToSlice vm memory sizeOf buf len = .ok slice) : slice.len = len := by
  by_cases empty : len = 0
  · rw [sysArgToSlice, checkedSlice, if_pos empty] at checked
    cases checked
    exact empty.symm
  · obtain ⟨-, rfl⟩ := (checkedSlice_eq_ok_iff empty).mp checked
    rfl

/-- `VgaDisplay::blit` goes through exactly if the region fits. -/
theorem display_blit_isSome_iff {display : VgaDisplay}
    (covers : src.buffer.len = src.info.pitch * src.info.height) (fits : src.buffer.len < 2 ^ 64) :
    (∃ display', display.blit src dest width height = some display') ↔
      BlitFits display.fbInfo src.info (src.x, src.y) dest width height := by
  obtain ⟨narrow, small⟩ := display.small
  rw [← blit_isSome_iff narrow display.covers (by rw [display.covers]; exact small) covers fits]
  simp only [VgaDisplay.blit, bind_eq_some]
  constructor
  · rintro ⟨-, memory, done, -⟩
    exact ⟨memory, done⟩
  · rintro ⟨memory, done⟩
    exact ⟨_, memory, done, rfl⟩

theorem display_blit_within {display display' : VgaDisplay} (fits : src.buffer.len < 2 ^ 64)
    (done : display.blit src dest width height = some display') :
    display'.fbInfo = display.fbInfo ∧
      Within (InRect display.fbInfo dest width height) display.memory display'.memory := by
  have small := display.small.2
  simp only [VgaDisplay.blit, bind_eq_some, Option.some.injEq] at done
  obtain ⟨memory, drawn, rfl⟩ := done
  have within := blit_within (by rw [display.covers]; omega) fits drawn
  exact ⟨rfl, rfl, within.byte⟩

/-- The last step of a blit, by the owner of the display. -/
theorem drawn_iff {c : VgaDisplayController}
    (covers : src.buffer.len = src.info.pitch * src.info.height) (fits : src.buffer.len < 2 ^ 64) :
    (∃ outcome, ((c.display.blit src dest width height).bind fun display =>
          some (GraphicsOutcome.mk (.ok 0#64) (some { c with display := display }) none)) =
        some outcome ∧
      DrawsWithin (fun fbInfo => InRect fbInfo dest width height) (some c) outcome.controller) ↔
      BlitFits c.display.fbInfo src.info (src.x, src.y) dest width height := by
  rw [← display_blit_isSome_iff covers fits]
  simp only [Option.bind_eq_some_iff]
  constructor
  · rintro ⟨-, ⟨display, done, -⟩, -⟩
    exact ⟨display, done⟩
  · rintro ⟨display, done⟩
    obtain ⟨info, within⟩ := display_blit_within fits done
    exact ⟨_, ⟨display, done, rfl⟩, .present rfl info within⟩

/-- For every address space, command and state of the display: with a source buffer of user pages,
the call returns, and changes only the destination rectangle on the screen, exactly if the region of
a blit that is accepted fits both framebuffers. -/
theorem blit_contained_iff (user : UserMemory) (extra pid : Nat)
    (controller : Option VgaDisplayController)
    (buffer : UserBuffer user (user.blitCommand extra)) :
    (∃ outcome, sysGraphics user 3 extra pid controller = some outcome ∧
        DrawsWithin (fun fbInfo => InRect fbInfo (user.blitCommand extra).dst
          (user.blitCommand extra).size.1 (user.blitCommand extra).size.2)
          controller outcome.controller) ↔
      (BlitAccepted user extra → ∀ c, controller = some c → c.lockProcess pid = true →
        BlitFits c.display.fbInfo (user.blitCommand extra).srcFramebufferInfo
          (user.blitCommand extra).src (user.blitCommand extra).dst
          (user.blitCommand extra).size.1 (user.blitCommand extra).size.2) := by
  have small := buffer.size_lt
  have size : (user.blitCommand extra).srcFramebufferInfo.memorySize =
      some ((user.blitCommand extra).srcFramebufferInfo.pitch *
        (user.blitCommand extra).srcFramebufferInfo.height) :=
    usizeMul_eq_some_iff.mpr ⟨small, rfl⟩
  have command : sysGraphics user 3 extra pid controller = sysBlit user extra pid controller := rfl
  rw [command]
  unfold sysBlit
  cases pointed : ptrAsRef user.vm user.tables sizeOfBlitCommand extra with
  | error err =>
    refine iff_of_true ⟨_, rfl, DrawsWithin.refl _ _⟩ ?_
    rintro ⟨⟨ptr, accepted⟩, -⟩
    rw [pointed] at accepted
    cases accepted
  | ok ptr =>
    obtain ⟨-, rfl⟩ := checkedPtr_eq_ok_iff.mp pointed
    simp only [size, Option.bind_eq_bind, Option.bind_some]
    cases sliced : sysArgToSlice user.vm user.tables 1 (user.blitCommand ptr).memory
        ((user.blitCommand ptr).srcFramebufferInfo.pitch *
          (user.blitCommand ptr).srcFramebufferInfo.height) with
    | error err =>
      refine iff_of_true ⟨_, rfl, DrawsWithin.refl _ _⟩ ?_
      rintro ⟨-, slice, accepted⟩
      rw [sliced] at accepted
      cases accepted
    | ok slice =>
      have accepted : BlitAccepted user ptr := ⟨⟨ptr, pointed⟩, slice, sliced⟩
      have covers := sysArgToSlice_len sliced
      have fits : (user.source slice (user.blitCommand ptr)).buffer.len < 2 ^ 64 := by
        rw [← covers] at small
        exact small
      cases controller with
      | none => exact iff_of_true ⟨_, rfl, .absent⟩ fun _ c present => nomatch present
      | some c =>
        cases owned : c.lockProcess pid with
        | false =>
          simp only [owned]
          refine iff_of_true ⟨_, rfl, DrawsWithin.refl _ _⟩ fun _ c' present mine => ?_
          cases present
          rw [owned] at mine
          cases mine
        | true =>
          simp only [owned, if_true]
          rw [drawn_iff covers fits]
          constructor
          · intro region _ c' present _
            cases present
            exact region
          · intro region
            exact region accepted c rfl owned

end

/-- A screen of 4 by 2 pixels. -/
def smallInfo : FrameBufferInfo where
  pitch := 16
  height := 2
  width := 4
  fieldPos := (2, 1, 0)
  mask := (255, 255, 255)
  bytePerPixel := 4
  usize := by decide

/-- Process 5 owns the screen. -/
def smallController : VgaDisplayController where
  display :=
    { fbInfo := smallInfo
      memory := { len := 32, byte := fun _ => 0 }
      small := by decide
      covers := rfl }
  ownerProcess := 5

/-- A process whose addresses are all mapped, and its blit of one pixel. -/
def pixelBlit (dst : Nat × Nat) : UserMemory where
  vm := { pageMapL4 := 0, isUser := true }
  tables := fun _ _ => 7#64
  byte := fun _ => 1
  blitCommand := fun _ =>
    { memory := 4096, srcFramebufferInfo := smallInfo, src := (0, 0), dst := dst, size := (1, 1) }

theorem userBuffer_pixelBlit (dst : Nat × Nat) (extra : Nat) :
    UserBuffer (pixelBlit dst) ((pixelBlit dst).blitCommand extra) := by
  constructor
  · show 4096 + 16 * 2 ≤ 2 ^ 64
    omega
  · intro i inside
    have small : i < 32 := inside
    have entry : isUserEntry 7#64 = true := by decide
    refine ⟨.inl ?_, entry, entry, entry, .inr entry⟩
    show 4096 + i < 2 ^ 47
    omega

/-- The last pixel of the screen can be drawn. -/
theorem last_pixel_drawn :
    ∃ outcome, sysGraphics (pixelBlit (3, 1)) 3 8192 5 (some smallController) = some outcome ∧
      DrawsWithin (fun fbInfo => InRect fbInfo (3, 1) 1 1) (some smallController)
        outcome.controller := by
  refine (blit_contained_iff (pixelBlit (3, 1)) 8192 5 (some smallController)
    (userBuffer_pixelBlit (3, 1) 8192)).mpr ?_
  intro _ c present _
  cases present
  exact ⟨by decide, by decide, by decide, by decide,
    fun _ _ => ⟨by decide, by decide, by unfold RegionFits; decide, by unfold RegionFits; decide⟩,
    fun differs => absurd ⟨rfl, rfl, rfl⟩ differs⟩

/-- One pixel further to the right the kernel panics. -/
theorem pixel_off_screen_panics :
    UserBuffer (pixelBlit (4, 1)) ((pixelBlit (4, 1)).blitCommand 8192) ∧
      smallController.lockProcess 5 = true ∧
      (sysGraphics (pixelBlit (4, 1)) 3 8192 5 (some smallController)).isNone = true :=
  ⟨userBuffer_pixelBlit (4, 1) 8192, by decide, by decide⟩

end Emerald.Process
