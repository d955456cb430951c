
import Emerald.Graphics.Proofs.Blit

/-!
# Copies within the screen

Both handlers of `blit_inner_ranges` cut the memory at the source and write to the part before it.
So a copy goes through exactly if its first line moves to lower addresses, by a line at least; then
every line does, and none of them reaches a line that is still to be copied.
-/

namespace Emerald.Graphics
variable {fbInfo : FrameBufferInfo} {src dest : Nat × Nat} {chunkSize y : Nat}
  {memory memory' : Buffer}

/-- What a line needs. -/
structure InnerLineFits (fbInfo : FrameBufferInfo) (src dest : Nat × Nat)
    (chunkSize len y : Nat) : Prop where
  srcInside : src.1 < fbInfo.width ∧ src.2 + y < fbInfo.height
  destInside : dest.1 < fbInfo.width ∧ dest.2 + y < fbInfo.height
  before : fbInfo.position dest.1 (dest.2 + y) + chunkSize ≤ fbInfo.position src.1 (src.2 + y)
  room : fbInfo.position src.1 (src.2 + y) + chunkSize ≤ len

theorem blitInnerLine_eq_some_iff (limit : memory.len < 2 ^ 64) :
    blitInnerLine fbInfo src dest (copyAcrossSplit chunkSize) y memory = some memory' ↔
      InnerLineFits fbInfo src dest chunkSize memory.len y ∧
        memory.write (fbInfo.position dest.1 (dest.2 + y)) (readBytes memory.byte
          (fbInfo.position src.1 (src.2 + y)) chunkSize) = memory' := by
  simp only [blitInnerLine, copyAcrossSplit, bind_eq_some, usizeAdd_eq_some_iff,
    FrameBufferInfo.getArrPos_join_eq_some_iff, assertThat_eq_some_iff, Option.some.injEq]
  constructor
  · rintro ⟨-, ⟨-, rfl⟩, -, ⟨srcX, srcY, -, rfl⟩, -, ⟨-, rfl⟩, -, ⟨destX, destY, -, rfl⟩, -, split,
      -, ⟨-, rfl⟩, -, before, -, room, copied⟩
    exact ⟨⟨⟨srcX, srcY⟩, ⟨destX, destY⟩, before, by omega⟩, copied⟩
  · rintro ⟨⟨⟨srcX, srcY⟩, ⟨destX, destY⟩, before, room⟩, copied⟩
    have height := fbInfo.usize.2
    exact ⟨_, ⟨by omega, rfl⟩, _, ⟨srcX, srcY, by omega, rfl⟩, _, ⟨by omega, rfl⟩, _,
      ⟨destX, destY, by omega, rfl⟩, (), by omega, _, ⟨by omega, rfl⟩, (), before, (), by omega,
      copied⟩

theorem position_add_row (x y k : Nat) :
    fbInfo.position x (y + k) = fbInfo.position x y + k * fbInfo.pitch := by
  unfold FrameBufferInfo.position
  rw [add_mul, add_assoc]

/-- The bytes of the lines from one to another. -/
def InLines (fbInfo : FrameBufferInfo) (dest : Nat × Nat) (chunkSize first n a : Nat) : Prop :=
  ∃ y, first ≤ y ∧ y < first + n ∧ InLine fbInfo dest chunkSize y a

/-- After the lines are copied each of their bytes is the one that was behind it by the distance
of the two rectangles. -/
theorem blitInnerLines_moved {shift : Nat}
    (distance : fbInfo.position src.1 src.2 = fbInfo.position dest.1 dest.2 + shift)
    (far : chunkSize ≤ shift) (n : Nat) {first : Nat} (limit : memory.len < 2 ^ 64)
    (done : forRange (blitInnerLine fbInfo src dest (copyAcrossSplit chunkSize)) n first memory =
      some memory') :
    (∀ a, InLines fbInfo dest chunkSize first n a → memory'.byte a = memory.byte (a + shift)) ∧
      Within (InLines fbInfo dest chunkSize first n) memory memory' := by
  induction n generalizing first memory with
  | zero =>
    cases done
    refine ⟨?_, Within.refl _ _⟩
    rintro a ⟨y, above, below, -⟩
    omega
  | succ n ih =>
    obtain ⟨middle, line, rest⟩ := forRange_succ.mp done
    obtain ⟨-, rfl⟩ := (blitInnerLine_eq_some_iff limit).mp line
    obtain ⟨moved, within⟩ := ih (by exact limit) rest
    have here : fbInfo.position src.1 (src.2 + first) =
        fbInfo.position dest.1 (dest.2 + first) + shift := by
      rw [position_add_row, position_add_row, distance]
      omega
    constructor
    · rintro a ⟨y, above, below, inside⟩
      by_cases later : InLines fbInfo dest chunkSize (first + 1) n a
      · -- what a later line reads lies behind everything written so far
        have mono : fbInfo.position dest.1 (dest.2 + first) ≤ fbInfo.position dest.1 (dest.2 + y) :=
          position_mono (by omega)
        have start := inside.1
        rw [moved a later]
        exact writeBytes_outside _ (.inr (by rw [length_readBytes]; omega))
      · have only : y = first := by
          by_contra other
          exact later ⟨y, by omega, by omega, inside⟩
        subst only
        obtain ⟨i, rfl⟩ := Nat.exists_eq_add_of_le inside.1
        have short : i < chunkSize := Nat.lt_of_add_lt_add_left inside.2
        rw [within.byte _ later]
        apply Option.some.inj
        refine (writeBytes_inside _ (by rwa [length_readBytes])).trans ?_
        rw [getElem?_readBytes _ _ short, here, add_right_comm]
    · refine ((within_write memory _ _).mono ?_).trans (within.mono ?_)
      · intro a inside
        rw [length_readBytes] at inside
        exact ⟨first, by omega, by omega, inside⟩
      · rintro a ⟨y, above, below, inside⟩
        exact ⟨y, by omega, by omega, inside⟩

/-- What a copy needs: beside what the assertions check, each corner is a column of the screen, the
source ends inside the memory, and its first line starts behind the line that it is copied to. -/
structure InnerFits (fbInfo : FrameBufferInfo) (src dest : Nat × Nat) (width height : Nat) :
    Prop where
  srcColumns : src.1 + width ≤ fbInfo.width
  srcRows : src.2 + height ≤ fbInfo.height
  destColumns : dest.1 + width ≤ fbInfo.width
  destRows : dest.2 + height ≤ fbInfo.height
  apart : NoOverlap src dest width height
  upwards : height ≠ 0 → src.1 < fbInfo.width ∧ dest.1 < fbInfo.width ∧
    fbInfo.position dest.1 dest.2 + width * fbInfo.bytePerPixel.toNat ≤
      fbInfo.position src.1 src.2 ∧ RegionFits fbInfo src.1 src.2 width height

/-- The destination holds what the source held, and nothing else has changed. -/
structure CopiesRect (fbInfo : FrameBufferInfo) (src dest : Nat × Nat) (width height : Nat)
    (memory memory' : Buffer) : Prop where
  pixels : ∀ x < width, ∀ y < height, ∀ k < fbInfo.bytePerPixel.toNat,
    memory'.byte (fbInfo.position (dest.1 + x) (dest.2 + y) + k) =
      memory.byte (fbInfo.position (src.1 + x) (src.2 + y) + k)
  rest : Within (InRect fbInfo dest width height) memory memory'

section
variable {width height : Nat}

theorem InnerFits.line (fits : InnerFits fbInfo src dest width height) (below : y < height) :
    InnerLineFits fbInfo src dest (width * fbInfo.bytePerPixel.toNat)
      (fbInfo.pitch * fbInfo.height) y := by
  obtain ⟨srcX, destX, before, region⟩ := fits.upwards (by omega)
  have srcRows := fits.srcRows
  have destRows := fits.destRows
  refine ⟨⟨srcX, by omega⟩, ⟨destX, by omega⟩, ?_, region.line below⟩
  rw [position_add_row, position_add_row]
  omega

theorem blitInnerLines_isSome_iff (limit : memory.len < 2 ^ 64) :
    (∃ memory', forRange (blitInnerLine fbInfo src dest (copyAcrossSplit chunkSize)) height 0
      memory = some memory') ↔
      ∀ y < height, InnerLineFits fbInfo src dest chunkSize memory.len y := by
  refine turns_isSome_iff (fun y m len => ?_) (fun y m m' len done => ?_) height
  · simp only [blitInnerLine_eq_some_iff (len ▸ limit), len, exists_and_left, exists_eq', and_true]
  · obtain ⟨-, rfl⟩ := (blitInnerLine_eq_some_iff (len ▸ limit)).mp done
    exact len

theorem InnerFits.copies (fits : InnerFits fbInfo src dest width height)
    (limit : memory.len < 2 ^ 64)
    (done : forRange (blitInnerLine fbInfo src dest
      (copyAcrossSplit (width * fbInfo.bytePerPixel.toNat))) height 0 memory = some memory') :
    CopiesRect fbInfo src dest width height memory memory' := by
  by_cases empty : height = 0
  · subst empty
    cases done
    exact ⟨fun _ _ y below => absurd below (Nat.not_lt_zero y), Within.refl _ _⟩
  · obtain ⟨-, -, before, -⟩ := fits.upwards empty
    obtain ⟨gap, distance⟩ := Nat.exists_eq_add_of_le before
    rw [add_assoc] at distance
    obtain ⟨moved, within⟩ := blitInnerLines_moved distance (Nat.le_add_right ..) height limit done
    refine ⟨fun x left y below k inside => ?_, within.mono ?_⟩
    · have bytes := Nat.mul_le_mul_right fbInfo.bytePerPixel.toNat (Nat.succ_le_of_lt left)
      have column : fbInfo.position (dest.1 + x) (dest.2 + y) + fbInfo.bytePerPixel.toNat = _ :=
        position_add_bytes dest.1 (dest.2 + y) x
      rw [Nat.succ_mul] at bytes column
      rw [moved _ ⟨y, by omega, by omega, by omega, by omega⟩]
      congr 1
      unfold FrameBufferInfo.position at distance ⊢
      simp only [add_mul]
      omega
    · rintro a ⟨y, -, below, inside⟩
      exact inRect_of_inLine fits.destColumns fits.destRows (by omega) inside

end

/-- A copy within the screen goes through, and copies the rectangle, exactly if it moves upwards. -/
theorem VgaDisplay.blitInnerRanges_copies_iff (display : VgaDisplay) (src dest : Nat × Nat)
    (width height : Nat) :
    (∃ memory', display.blitInnerRanges src dest width height = some memory' ∧
        CopiesRect display.fbInfo src dest width height display.memory memory') ↔
      InnerFits display.fbInfo src dest width height := by
  have limits := display.fbInfo.usize
  have small := display.small.2
  have limit : display.memory.len < 2 ^ 64 := by
    rw [display.covers]
    omega
  have handler : ∀ (srcAt destAt chunkSize : Nat),
      (if destAt < srcAt then copyHandlerSrcAfter chunkSize else copyHandlerSrcBefore chunkSize) =
        copyAcrossSplit chunkSize := fun _ _ _ => ite_self _
  simp only [blitInnerRanges, bind_eq_some, assertWithin_eq_some_iff limits.1,
    assertWithin_eq_some_iff limits.2, assertThat_eq_some_iff, usizeMul_eq_some_iff,
    mixedPosition, usizeAdd_eq_some_iff, handler]
  constructor
  · rintro ⟨memory', ⟨-, srcColumns, -, srcRows, -, destColumns, -, destRows, -, apart, -,
      ⟨-, rfl⟩, -, -, -, -, done⟩, -⟩
    have fits := (blitInnerLines_isSome_iff limit).mp ⟨memory', done⟩
    refine ⟨srcColumns, srcRows, destColumns, destRows, apart, fun some_ => ?_⟩
    have first := fits 0 (by omega)
    have last := (fits (height - 1) (by omega)).room
    rw [display.covers] at last
    exact ⟨first.srcInside.1, first.destInside.1, first.before, last⟩
  · intro fits
    have lines := fun y below => fits.line (y := y) below
    rw [← display.covers] at lines
    obtain ⟨memory', done⟩ := (blitInnerLines_isSome_iff limit).mpr lines
    have row : ∀ pos : Nat × Nat, pos.1 + width ≤ display.fbInfo.width →
        pos.2 + height ≤ display.fbInfo.height →
        ∃ at_ row, (pos.2 * display.fbInfo.pitch < 2 ^ 64 ∧ pos.2 * display.fbInfo.pitch = row) ∧
          row + pos.1 < 2 ^ 64 ∧ row + pos.1 = at_ := by
      intro pos columns rows
      have narrow := display.small.1
      have := Nat.mul_le_mul_left display.fbInfo.pitch (show pos.2 ≤ display.fbInfo.height by omega)
      rw [mul_comm] at this
      exact ⟨_, _, ⟨by omega, rfl⟩, by omega, rfl⟩
    obtain ⟨srcAt, srcRow⟩ := row src fits.srcColumns fits.srcRows
    obtain ⟨destAt, destRow⟩ := row dest fits.destColumns fits.destRows
    exact ⟨memory', ⟨(), fits.srcColumns, (), fits.srcRows, (), fits.destColumns, (),
      fits.destRows, (), fits.apart, _, ⟨chunk_lt display.small.1 fits.destColumns, rfl⟩, srcAt,
      srcRow, destAt, destRow, done⟩, fits.copies limit done⟩

/-- A screen of one column and two rows. -/
def twoPixels : VgaDisplay where
  fbInfo :=
    { pitch := 1, height := 2, width := 1, fieldPos := (0, 0, 0), mask := (255, 255, 255),
      bytePerPixel := 1, usize := by decide }
  memory := { len := 2, byte := fun _ => 0 }
  small := by decide
  covers := rfl

/-- The upper pixel cannot be copied to the lower one. -/
theorem copy_downwards_panics :
    NoOverlap (0, 0) (0, 1) 1 1 ∧ (twoPixels.blitInnerRanges (0, 0) (0, 1) 1 1).isNone = true := by
  decide

end Emerald.Graphics
