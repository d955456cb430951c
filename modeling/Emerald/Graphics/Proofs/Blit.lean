
import Emerald.Graphics.Vga
import Emerald.Misc.Outcome

/-!
# What a blit needs and what it changes

A blit goes through exactly if its region lies in both framebuffers, by their widths and heights
and by the bytes of their memory. What it changes then lies in the destination rectangle.
-/

namespace Emerald.Graphics

/-! ## Machine arithmetic -/

theorem usizeAdd_eq_some_iff {a b c : Nat} :
    usizeAdd a b = some c ↔ a + b < 2 ^ 64 ∧ a + b = c := by
  unfold usizeAdd
  rw [Option.ite_none_right_eq_some, Option.some.injEq]

theorem usizeMul_eq_some_iff {a b c : Nat} :
    usizeMul a b = some c ↔ a * b < 2 ^ 64 ∧ a * b = c := by
  unfold usizeMul
  rw [Option.ite_none_right_eq_some, Option.some.injEq]

theorem assertThat_eq_some_iff {check : Prop} [Decidable check] {u : Unit} :
    assertThat check = some u ↔ check := by
  unfold assertThat
  rw [Option.ite_none_right_eq_some]
  exact and_iff_left rfl

theorem assertWithin_eq_some_iff {start size limit : Nat} {u : Unit} (small : limit < 2 ^ 64) :
    assertWithin start size limit = some u ↔ start + size ≤ limit := by
  simp only [assertWithin, bind_eq_some, usizeAdd_eq_some_iff, assertThat_eq_some_iff]
  constructor
  · rintro ⟨last, ⟨-, rfl⟩, within⟩
    exact within
  · intro within
    exact ⟨_, ⟨by omega, rfl⟩, within⟩

/-! ## Slices -/

section
variable {buffer buffer' : Buffer} {start n : Nat} {line : List UInt8}

theorem Buffer.slice_eq_some_iff (small : buffer.len < 2 ^ 64) :
    buffer.slice start n = some line ↔
      start + n ≤ buffer.len ∧ readBytes buffer.byte start n = line := by
  simp only [slice, bind_eq_some, usizeAdd_eq_some_iff, assertThat_eq_some_iff, Option.some.injEq]
  constructor
  · rintro ⟨last, ⟨-, rfl⟩, -, within, taken⟩
    exact ⟨within, taken⟩
  · rintro ⟨within, taken⟩
    exact ⟨_, ⟨by omega, rfl⟩, (), within, taken⟩

theorem Buffer.copyFromSlice_eq_some_iff (small : buffer.len < 2 ^ 64) :
    buffer.copyFromSlice start line = some buffer' ↔ start + line.length ≤ buffer.len ∧
      buffer.write start line = buffer' := by
  simp only [copyFromSlice, bind_eq_some, usizeAdd_eq_some_iff, assertThat_eq_some_iff,
    Option.some.injEq]
  constructor
  · rintro ⟨last, ⟨-, rfl⟩, -, within, copied⟩
    exact ⟨within, copied⟩
  · rintro ⟨within, copied⟩
    exact ⟨_, ⟨by omega, rfl⟩, (), within, copied⟩

end

/-- Only bytes at the given addresses have changed. -/
structure Within (S : Nat → Prop) (buffer buffer' : Buffer) : Prop where
  len : buffer'.len = buffer.len
  byte : ∀ a, ¬ S a → buffer'.byte a = buffer.byte a

namespace Within
variable {S S' : Nat → Prop} {buffer buffer' buffer'' : Buffer}

theorem refl (S : Nat → Prop) (buffer : Buffer) : Within S buffer buffer :=
  ⟨rfl, fun _ _ => rfl⟩

theorem mono (within : Within S buffer buffer') (le : ∀ a, S a → S' a) :
    Within S' buffer buffer' :=
  ⟨within.len, fun a outside => within.byte a fun inside => outside (le a inside)⟩

theorem trans (first : Within S buffer buffer') (second : Within S buffer' buffer'') :
    Within S buffer buffer'' :=
  ⟨second.len.trans first.len,
    fun a outside => (second.byte a outside).trans (first.byte a outside)⟩

end Within

theorem within_write (buffer : Buffer) (start : Nat) (new : List UInt8) :
    Within (fun a => start ≤ a ∧ a < start + new.length) buffer (buffer.write start new) := by
  refine ⟨rfl, fun a outside => writeBytes_outside _ ?_⟩
  omega

/-- Turns that keep the length of the memory go through exactly if each of them does. -/
theorem turns_isSome_iff {f : Nat → Buffer → Option Buffer} {Q : Nat → Prop} {memory : Buffer}
    (goes : ∀ i (m : Buffer), m.len = memory.len → ((∃ m', f i m = some m') ↔ Q i))
    (keeps : ∀ i (m m' : Buffer), m.len = memory.len → f i m = some m' → m'.len = memory.len)
    (n : Nat) :
    (∃ memory', forRange f n 0 memory = some memory') ↔ ∀ i < n, Q i := by
  have turns := forRange_isSome_iff (P := fun m : Buffer => m.len = memory.len) goes keeps n 0 rfl
  simpa only [zero_add] using turns

/-! ## Positions -/

namespace FrameBufferInfo
variable (info : FrameBufferInfo)

/-- Where a pixel starts. -/
def position (x y : Nat) : Nat := x * info.bytePerPixel.toNat + y * info.pitch

variable {info}

theorem getArrPos_join_eq_some_iff {x y i : Nat} : (info.getArrPos (x, y)).join = some i ↔
    x < info.width ∧ y < info.height ∧ info.position x y < 2 ^ 64 ∧ info.position x y = i := by
  unfold getArrPos position
  split
  · simp only [Option.join_some, reduceCtorEq, false_iff]
    rintro ⟨column, row, -⟩
    omega
  · simp only [Option.join_eq_some_iff, bind_eq_some, usizeMul_eq_some_iff, usizeAdd_eq_some_iff,
      Option.some.injEq]
    constructor
    · rintro ⟨-, ⟨-, rfl⟩, -, ⟨-, rfl⟩, _, ⟨fits, rfl⟩, rfl⟩
      exact ⟨by omega, by omega, fits, rfl⟩
    · rintro ⟨-, -, fits, rfl⟩
      exact ⟨_, ⟨by omega, rfl⟩, _, ⟨by omega, rfl⟩, _, ⟨fits, rfl⟩, rfl⟩

end FrameBufferInfo

/-! ## Lines of the fast copy -/

section
variable {fbInfo : FrameBufferInfo} {src : Source} {dest : Nat × Nat} {chunkSize : Nat}

/-- What a line of the fast copy needs. -/
structure LineFits (fbInfo : FrameBufferInfo) (src : Source) (dest : Nat × Nat)
    (chunkSize len y : Nat) : Prop where
  srcInside : src.x < src.info.width ∧ src.y + y < src.info.height
  destInside : dest.1 < fbInfo.width ∧ dest.2 + y < fbInfo.height
  srcRoom : src.info.position src.x (src.y + y) + chunkSize ≤ src.buffer.len
  destRoom : fbInfo.position dest.1 (dest.2 + y) + chunkSize ≤ len

/-- The bytes of the destination of a line. -/
def InLine (fbInfo : FrameBufferInfo) (dest : Nat × Nat) (chunkSize y a : Nat) : Prop :=
  fbInfo.position dest.1 (dest.2 + y) ≤ a ∧ a < fbInfo.position dest.1 (dest.2 + y) + chunkSize

section
variable {memory memory' : Buffer} (small : src.buffer.len < 2 ^ 64) (fits : memory.len < 2 ^ 64)
include small fits

theorem blitFastLine_eq_some_iff {y : Nat} :
    blitFastLine fbInfo src dest chunkSize y memory = some memory' ↔
      LineFits fbInfo src dest chunkSize memory.len y ∧
        memory.write (fbInfo.position dest.1 (dest.2 + y)) (readBytes src.buffer.byte
          (src.info.position src.x (src.y + y)) chunkSize) = memory' := by
  simp only [blitFastLine, bind_eq_some, usizeAdd_eq_some_iff,
    FrameBufferInfo.getArrPos_join_eq_some_iff, Buffer.slice_eq_some_iff small,
    Buffer.copyFromSlice_eq_some_iff fits]
  constructor
  · rintro ⟨-, ⟨-, rfl⟩, -, ⟨srcX, srcY, -, rfl⟩, -, ⟨-, rfl⟩, -, ⟨destX, destY, -, rfl⟩, -,
      ⟨srcRoom, rfl⟩, destRoom, copied⟩
    rw [length_readBytes] at destRoom
    exact ⟨⟨⟨srcX, srcY⟩, ⟨destX, destY⟩, srcRoom, destRoom⟩, copied⟩
  · rintro ⟨⟨⟨srcX, srcY⟩, ⟨destX, destY⟩, srcRoom, destRoom⟩, copied⟩
    have srcHeight := src.info.usize.2
    have destHeight := fbInfo.usize.2
    refine ⟨_, ⟨by omega, rfl⟩, _, ⟨srcX, srcY, by omega, rfl⟩, _, ⟨by omega, rfl⟩, _,
      ⟨destX, destY, by omega, rfl⟩, _, ⟨srcRoom, rfl⟩, ?_, copied⟩
    rw [length_readBytes]
    exact destRoom

/-- The lines of the fast copy go through exactly if each of them fits. -/
theorem blitFastLines_isSome_iff (height : Nat) :
    (∃ memory', forRange (blitFastLine fbInfo src dest chunkSize) height 0 memory = some memory') ↔
      ∀ y < height, LineFits fbInfo src dest chunkSize memory.len y := by
  refine turns_isSome_iff (fun y m len => ?_) (fun y m m' len done => ?_) height
  · simp only [blitFastLine_eq_some_iff small (len ▸ fits), len, exists_and_left, exists_eq',
      and_true]
  · obtain ⟨-, rfl⟩ := (blitFastLine_eq_some_iff small (len ▸ fits)).mp done
    exact len

theorem blitFastLines_within (height : Nat)
    (done : forRange (blitFastLine fbInfo src dest chunkSize) height 0 memory = some memory') :
    Within (fun a => ∃ y < height, InLine fbInfo dest chunkSize y a) memory memory' := by
  refine forRange_invariant height ?_ (Within.refl _ memory) done
  intro y _ below m m' within line
  obtain ⟨-, rfl⟩ := (blitFastLine_eq_some_iff small (within.len ▸ fits)).mp line
  refine within.trans ((within_write m _ _).mono ?_)
  intro a inside
  rw [length_readBytes] at inside
  exact ⟨y, by omega, inside⟩

end

end

/-! ## Pixels of the slow copy -/

namespace FrameBufferInfo
variable {info : FrameBufferInfo} {memory memory' : Buffer} {x y : Nat}

/-- The colours of a pixel lie in its bytes. -/
def FieldsFit (info : FrameBufferInfo) : Prop :=
  info.fieldPos.1.toNat < info.bytePerPixel.toNat ∧
    info.fieldPos.2.1.toNat < info.bytePerPixel.toNat ∧
    info.fieldPos.2.2.toNat < info.bytePerPixel.toNat

/-- What the access to a pixel needs. -/
structure PixelFits (info : FrameBufferInfo) (len x y : Nat) : Prop where
  inside : x < info.width ∧ y < info.height
  room : info.position x y + info.bytePerPixel.toNat ≤ len
  fields : info.FieldsFit

theorem join_bind {α β : Type} (found : Option α) (f : α → Option (Option β)) :
    (found.bind f).join = found.bind fun a => (f a).join := by
  cases found <;> rfl

theorem readPixel_join (pos : Nat × Nat) :
    (info.readPixel memory pos).join = (info.getArrPos pos).join.bind (fun i => do
      let pixelMem ← memory.slice i info.bytePerPixel.toNat
      let r ← pixelMem[info.fieldPos.1.toNat]?
      let g ← pixelMem[info.fieldPos.2.1.toNat]?
      let b ← pixelMem[info.fieldPos.2.2.toNat]?
      some ⟨r, g, b⟩) := by
  unfold readPixel
  cases info.getArrPos pos with
  | none => rfl
  | some found =>
    cases found with
    | none => rfl
    | some i => simp only [Option.bind_eq_bind, Option.bind_some, Option.join_some, join_bind]

theorem field_readBytes {store : Nat → UInt8} {start n field : Nat} :
    (∃ value, (readBytes store start n)[field]? = some value) ↔ field < n := by
  constructor
  · rintro ⟨value, read⟩
    have below := (List.getElem?_eq_some_iff.mp read).1
    rwa [length_readBytes] at below
  · intro below
    exact ⟨_, getElem?_readBytes store start below⟩

theorem readPixel_isSome_iff (small : memory.len < 2 ^ 64) :
    (∃ pixel, (info.readPixel memory (x, y)).join = some pixel) ↔
      info.PixelFits memory.len x y := by
  rw [readPixel_join]
  simp only [Option.bind_eq_bind, Option.bind_eq_some_iff, getArrPos_join_eq_some_iff,
    Buffer.slice_eq_some_iff small]
  constructor
  · rintro ⟨pixel, -, ⟨column, row, -, rfl⟩, -, ⟨room, rfl⟩, r, red, g, green, b, blue, -⟩
    exact ⟨⟨column, row⟩, room, field_readBytes.mp ⟨r, red⟩, field_readBytes.mp ⟨g, green⟩,
      field_readBytes.mp ⟨b, blue⟩⟩
  · rintro ⟨⟨column, row⟩, room, red, green, blue⟩
    obtain ⟨r, red⟩ := field_readBytes.mpr red
    obtain ⟨g, green⟩ := field_readBytes.mpr green
    obtain ⟨b, blue⟩ := field_readBytes.mpr blue
    exact ⟨_, _, ⟨column, row, by omega, rfl⟩, _, ⟨room, rfl⟩, r, red, g, green, b, blue, rfl⟩

theorem setField_eq_some_iff {i : Nat} {pos value : UInt8} :
    info.setField i pos value memory = some memory' ↔
      pos.toNat < info.bytePerPixel.toNat ∧ memory.write (i + pos.toNat) [value] = memory' := by
  simp only [setField, bind_eq_some, assertThat_eq_some_iff, Option.some.injEq, exists_const]

theorem writePixel_join (pos : Nat × Nat) (color : Pixel) :
    (info.writePixel memory pos color).join = (info.getArrPos pos).join.bind (fun i => do
      let _ ← memory.slice i info.bytePerPixel.toNat
      let memory ← info.setField i info.fieldPos.1 (color.r &&& info.mask.1) memory
      let memory ← info.setField i info.fieldPos.2.1 (color.g &&& info.mask.2.1) memory
      info.setField i info.fieldPos.2.2 (color.b &&& info.mask.2.2) memory) := by
  unfold writePixel
  cases info.getArrPos pos with
  | none => rfl
  | some found =>
    cases found with
    | none => rfl
    | some i =>
      simp only [Option.bind_eq_bind, Option.bind_some, Option.join_some, join_bind,
        Option.bind_fun_some]

/-- The bytes of a pixel. -/
def InPixel (info : FrameBufferInfo) (x y a : Nat) : Prop :=
  info.position x y ≤ a ∧ a < info.position x y + info.bytePerPixel.toNat

theorem writePixel_isSome_iff (small : memory.len < 2 ^ 64) (color : Pixel) :
    (∃ memory', (info.writePixel memory (x, y) color).join = some memory') ↔
      info.PixelFits memory.len x y := by
  rw [writePixel_join]
  simp only [Option.bind_eq_bind, Option.bind_eq_some_iff, getArrPos_join_eq_some_iff,
    Buffer.slice_eq_some_iff small, setField_eq_some_iff]
  constructor
  · rintro ⟨-, -, ⟨column, row, -, rfl⟩, -, ⟨room, -⟩, -, ⟨red, -⟩, -, ⟨green, -⟩, blue, -⟩
    exact ⟨⟨column, row⟩, room, red, green, blue⟩
  · rintro ⟨⟨column, row⟩, room, red, green, blue⟩
    exact ⟨_, _, ⟨column, row, by omega, rfl⟩, _, ⟨room, rfl⟩, _, ⟨red, rfl⟩, _, ⟨green, rfl⟩,
      blue, rfl⟩

theorem writePixel_within {color : Pixel}
    (wrote : (info.writePixel memory (x, y) color).join = some memory') :
    Within (info.InPixel x y) memory memory' := by
  have field : ∀ (memory : Buffer) (i : Nat) (pos value : UInt8), info.position x y = i →
      pos.toNat < info.bytePerPixel.toNat →
      Within (info.InPixel x y) memory (memory.write (i + pos.toNat) [value]) := by
    rintro memory i pos value rfl below
    refine (within_write memory _ _).mono fun a inside => ?_
    rw [List.length_singleton] at inside
    exact ⟨by omega, by omega⟩
  rw [writePixel_join] at wrote
  simp only [Option.bind_eq_bind, Option.bind_eq_some_iff, getArrPos_join_eq_some_iff,
    setField_eq_some_iff] at wrote
  obtain ⟨i, ⟨-, -, -, start⟩, -, -, -, ⟨red, rfl⟩, -, ⟨green, rfl⟩, blue, rfl⟩ := wrote
  exact (field _ i _ _ start red).trans ((field _ i _ _ start green).trans
    (field _ i _ _ start blue))

end FrameBufferInfo

section
variable {fbInfo : FrameBufferInfo} {src : Source} {dest : Nat × Nat}
variable {memory memory' : Buffer}

/-- What a pixel of the slow copy needs. -/
def CopyFits (fbInfo : FrameBufferInfo) (src : Source) (dest : Nat × Nat) (len x y : Nat) : Prop :=
  src.info.PixelFits src.buffer.len (src.x + x) (src.y + y) ∧
    fbInfo.PixelFits len (dest.1 + x) (dest.2 + y)

theorem blitSlowPixel_within {x y : Nat}
    (done : blitSlowPixel fbInfo src dest x y memory = some memory') :
    Within (fbInfo.InPixel (dest.1 + x) (dest.2 + y)) memory memory' := by
  simp only [blitSlowPixel, bind_eq_some, usizeAdd_eq_some_iff] at done
  obtain ⟨-, -, -, -, pixel, -, -, ⟨-, rfl⟩, -, ⟨-, rfl⟩, wrote⟩ := done
  exact FrameBufferInfo.writePixel_within wrote

theorem blitSlowLine_within {width y : Nat}
    (done : blitSlowLine fbInfo src dest width y memory = some memory') :
    Within (fun a => ∃ x < width, fbInfo.InPixel (dest.1 + x) (dest.2 + y) a) memory memory' := by
  refine forRange_invariant width ?_ (Within.refl _ memory) done
  intro x _ below m m' within pixel
  refine within.trans ((blitSlowPixel_within pixel).mono ?_)
  intro a inside
  exact ⟨x, by omega, inside⟩

theorem blitSlowLines_within (width height : Nat)
    (done : forRange (blitSlowLine fbInfo src dest width) height 0 memory = some memory') :
    Within (fun a => ∃ y < height, ∃ x < width, fbInfo.InPixel (dest.1 + x) (dest.2 + y) a)
      memory memory' := by
  refine forRange_invariant height ?_ (Within.refl _ memory) done
  intro y _ below m m' within line
  refine within.trans ((blitSlowLine_within line).mono ?_)
  rintro a inside
  exact ⟨y, by omega, inside⟩

section
variable (fits : memory.len < 2 ^ 64)
include fits

section
variable (small : src.buffer.len < 2 ^ 64)
include small

theorem blitSlowPixel_isSome_iff {x y : Nat} :
    (∃ memory', blitSlowPixel fbInfo src dest x y memory = some memory') ↔
      CopyFits fbInfo src dest memory.len x y := by
  simp only [blitSlowPixel, bind_eq_some, usizeAdd_eq_some_iff]
  constructor
  · rintro ⟨memory', -, ⟨-, rfl⟩, -, ⟨-, rfl⟩, pixel, read, -, ⟨-, rfl⟩, -, ⟨-, rfl⟩, wrote⟩
    exact ⟨(FrameBufferInfo.readPixel_isSome_iff small).mp ⟨pixel, read⟩,
      (FrameBufferInfo.writePixel_isSome_iff fits pixel).mp ⟨memory', wrote⟩⟩
  · rintro ⟨source, target⟩
    obtain ⟨pixel, read⟩ := (FrameBufferInfo.readPixel_isSome_iff small).mpr source
    obtain ⟨memory', wrote⟩ := (FrameBufferInfo.writePixel_isSome_iff fits pixel).mpr target
    have srcLimits := src.info.usize
    have destLimits := fbInfo.usize
    have srcInside := source.inside
    have destInside := target.inside
    exact ⟨memory', _, ⟨by omega, rfl⟩, _, ⟨by omega, rfl⟩, pixel, read, _, ⟨by omega, rfl⟩, _,
      ⟨by omega, rfl⟩, wrote⟩

theorem blitSlowLine_isSome_iff (width y : Nat) :
    (∃ memory', blitSlowLine fbInfo src dest width y memory = some memory') ↔
      ∀ x < width, CopyFits fbInfo src dest memory.len x y := by
  refine turns_isSome_iff (fun x m len => ?_) (fun x m m' len done => ?_) width
  · rw [blitSlowPixel_isSome_iff (len ▸ fits) small, len]
  · exact (blitSlowPixel_within done).len.trans len

theorem blitSlowLines_isSome_iff (width height : Nat) :
    (∃ memory', forRange (blitSlowLine fbInfo src dest width) height 0 memory = some memory') ↔
      ∀ y < height, ∀ x < width, CopyFits fbInfo src dest memory.len x y := by
  refine turns_isSome_iff (fun y m len => ?_) (fun y m m' len done => ?_) height
  · rw [blitSlowLine_isSome_iff (len ▸ fits) small, len]
  · exact (blitSlowLine_within done).len.trans len

end

end

end

/-! ## Whole blits -/

/-- The last line of a region ends inside the memory of its framebuffer. -/
def RegionFits (info : FrameBufferInfo) (x y width height : Nat) : Prop :=
  info.position x (y + (height - 1)) + width * info.bytePerPixel.toNat ≤ info.pitch * info.height

/-- What a blit needs. The fast copy looks up the start of each line, even of an empty one; the slow
copy looks at the colours of each pixel. -/
structure BlitFits (fbInfo srcInfo : FrameBufferInfo) (src dest : Nat × Nat)
    (width height : Nat) : Prop where
  srcColumns : src.1 + width ≤ srcInfo.width
  srcRows : src.2 + height ≤ srcInfo.height
  destColumns : dest.1 + width ≤ fbInfo.width
  destRows : dest.2 + height ≤ fbInfo.height
  fast : sameFormat fbInfo srcInfo → height ≠ 0 →
    src.1 < srcInfo.width ∧ dest.1 < fbInfo.width ∧
      RegionFits srcInfo src.1 src.2 width height ∧ RegionFits fbInfo dest.1 dest.2 width height
  slow : ¬ sameFormat fbInfo srcInfo → width ≠ 0 → height ≠ 0 →
    srcInfo.FieldsFit ∧ fbInfo.FieldsFit ∧
      RegionFits srcInfo src.1 src.2 width height ∧ RegionFits fbInfo dest.1 dest.2 width height

section
variable {fbInfo info : FrameBufferInfo} {src : Source} {dest : Nat × Nat} {width height : Nat}

theorem position_mono {x y y' : Nat} (le : y ≤ y') : info.position x y ≤ info.position x y' :=
  Nat.add_le_add_left (Nat.mul_le_mul_right _ le) _

/-- The end of a pixel in a line. -/
theorem position_add_bytes (x y k : Nat) :
    info.position (x + k) y + info.bytePerPixel.toNat =
      info.position x y + (k + 1) * info.bytePerPixel.toNat := by
  unfold FrameBufferInfo.position
  rw [add_mul, Nat.succ_mul]
  omega

theorem RegionFits.line {x y j : Nat} (region : RegionFits info x y width height)
    (below : j < height) :
    info.position x (y + j) + width * info.bytePerPixel.toNat ≤ info.pitch * info.height := by
  have mono : info.position x (y + j) ≤ info.position x (y + (height - 1)) :=
    position_mono (by omega)
  exact Nat.le_trans (Nat.add_le_add_right mono _) region

theorem lines_fit_iff (srcRows : src.y + height ≤ src.info.height)
    (destRows : dest.2 + height ≤ fbInfo.height)
    (same : fbInfo.bytePerPixel = src.info.bytePerPixel)
    (covers : src.buffer.len = src.info.pitch * src.info.height) :
    (∀ y < height, LineFits fbInfo src dest (width * fbInfo.bytePerPixel.toNat)
        (fbInfo.pitch * fbInfo.height) y) ↔
      (height ≠ 0 → src.x < src.info.width ∧ dest.1 < fbInfo.width ∧
        RegionFits src.info src.x src.y width height ∧
        RegionFits fbInfo dest.1 dest.2 width height) := by
  constructor
  · intro lines some_
    have last := lines (height - 1) (by omega)
    refine ⟨last.srcInside.1, last.destInside.1, ?_, last.destRoom⟩
    have room := last.srcRoom
    rw [covers, same] at room
    exact room
  · intro region y below
    obtain ⟨srcX, destX, srcFits, destFits⟩ := region (by omega)
    refine ⟨⟨srcX, by omega⟩, ⟨destX, by omega⟩, ?_, destFits.line below⟩
    rw [covers, same]
    exact srcFits.line below

/-- A region with some pixels fits exactly if its pixels do. -/
theorem pixels_fit_iff {x y : Nat} (columns : x + width ≤ info.width)
    (rows : y + height ≤ info.height) (wide : width ≠ 0) (high : height ≠ 0) :
    (∀ j < height, ∀ i < width,
        info.PixelFits (info.pitch * info.height) (x + i) (y + j)) ↔
      info.FieldsFit ∧ RegionFits info x y width height := by
  have lastColumn : width - 1 + 1 = width := by omega
  constructor
  · intro pixels
    have last := pixels (height - 1) (by omega) (width - 1) (by omega)
    refine ⟨last.fields, ?_⟩
    have room := last.room
    rw [position_add_bytes, lastColumn] at room
    exact room
  · rintro ⟨fields, region⟩ j below i inside
    refine ⟨⟨by omega, by omega⟩, ?_, fields⟩
    rw [position_add_bytes]
    have bytes : (i + 1) * info.bytePerPixel.toNat ≤ width * info.bytePerPixel.toNat :=
      Nat.mul_le_mul_right _ inside
    exact Nat.le_trans (Nat.add_le_add_left bytes _) (region.line below)

theorem copies_fit_iff (srcColumns : src.x + width ≤ src.info.width)
    (srcRows : src.y + height ≤ src.info.height) (destColumns : dest.1 + width ≤ fbInfo.width)
    (destRows : dest.2 + height ≤ fbInfo.height)
    (covers : src.buffer.len = src.info.pitch * src.info.height) :
    (∀ y < height, ∀ x < width, CopyFits fbInfo src dest (fbInfo.pitch * fbInfo.height) x y) ↔
      (width ≠ 0 → height ≠ 0 → src.info.FieldsFit ∧ fbInfo.FieldsFit ∧
        RegionFits src.info src.x src.y width height ∧
        RegionFits fbInfo dest.1 dest.2 width height) := by
  constructor
  · intro copies wide high
    obtain ⟨srcFields, srcRegion⟩ := (pixels_fit_iff srcColumns srcRows wide high).mp
      fun y below x inside => covers ▸ (copies y below x inside).1
    obtain ⟨destFields, destRegion⟩ := (pixels_fit_iff destColumns destRows wide high).mp
      fun y below x inside => (copies y below x inside).2
    exact ⟨srcFields, destFields, srcRegion, destRegion⟩
  · intro region y below x inside
    obtain ⟨srcFields, destFields, srcRegion, destRegion⟩ := region (by omega) (by omega)
    constructor
    · rw [covers]
      exact (pixels_fit_iff srcColumns srcRows (by omega) (by omega)).mpr
        ⟨srcFields, srcRegion⟩ y below x inside
    · exact (pixels_fit_iff destColumns destRows (by omega) (by omega)).mpr
        ⟨destFields, destRegion⟩ y below x inside

/-- The bytes of the destination rectangle that are on the screen. -/
def InRect (fbInfo : FrameBufferInfo) (dest : Nat × Nat) (width height a : Nat) : Prop :=
  ∃ x < width, ∃ y < height, dest.1 + x < fbInfo.width ∧ dest.2 + y < fbInfo.height ∧
    fbInfo.InPixel (dest.1 + x) (dest.2 + y) a

theorem inRect_of_inLine (columns : dest.1 + width ≤ fbInfo.width)
    (rows : dest.2 + height ≤ fbInfo.height) {y a : Nat} (below : y < height)
    (inside : InLine fbInfo dest (width * fbInfo.bytePerPixel.toNat) y a) :
    InRect fbInfo dest width height a := by
  obtain ⟨k, rfl⟩ := Nat.exists_eq_add_of_le inside.1
  have short : k < width * fbInfo.bytePerPixel.toNat := Nat.lt_of_add_lt_add_left inside.2
  have bytes : 0 < fbInfo.bytePerPixel.toNat := by
    apply pos_of_ne_zero
    intro zero
    rw [zero] at short
    omega
  have column : k / fbInfo.bytePerPixel.toNat < width :=
    (Nat.div_lt_iff_lt_mul bytes).mpr short
  have split := Nat.div_add_mod k fbInfo.bytePerPixel.toNat
  have remainder := Nat.mod_lt k bytes
  refine ⟨k / fbInfo.bytePerPixel.toNat, column, y, below, by omega, by omega, ?_⟩
  unfold FrameBufferInfo.InPixel FrameBufferInfo.position
  rw [add_mul, mul_comm (k / _)]
  constructor
  · omega
  · omega

theorem chunk_lt (narrow : fbInfo.width < 2 ^ 32) (columns : dest.1 + width ≤ fbInfo.width) :
    width * fbInfo.bytePerPixel.toNat < 2 ^ 64 := by
  have bytes := fbInfo.bytePerPixel.toNat_lt
  have := mul_le_mul (show width ≤ 2 ^ 32 by omega)
    (show fbInfo.bytePerPixel.toNat ≤ 2 ^ 8 by omega)
  omega

variable {memory memory' : Buffer}

/-- A blit goes through exactly if its region fits. -/
theorem blit_isSome_iff (narrow : fbInfo.width < 2 ^ 32)
    (screen : memory.len = fbInfo.pitch * fbInfo.height) (small : memory.len < 2 ^ 32)
    (covers : src.buffer.len = src.info.pitch * src.info.height)
    (fits : src.buffer.len < 2 ^ 64) :
    (∃ memory', blit fbInfo memory src dest width height = some memory') ↔
      BlitFits fbInfo src.info (src.x, src.y) dest width height := by
  have limit : memory.len < 2 ^ 64 := by omega
  have srcLimits := src.info.usize
  have destLimits := fbInfo.usize
  unfold blit
  by_cases same : sameFormat fbInfo src.info
  · simp only [same, if_true, blitFast, bind_eq_some, assertWithin_eq_some_iff srcLimits.1,
      assertWithin_eq_some_iff srcLimits.2, assertWithin_eq_some_iff destLimits.1,
      assertWithin_eq_some_iff destLimits.2, usizeMul_eq_some_iff]
    constructor
    · rintro ⟨memory', -, srcColumns, -, srcRows, -, destColumns, -, destRows, -, ⟨-, rfl⟩, done⟩
      have lines := (blitFastLines_isSome_iff fits limit height).mp ⟨memory', done⟩
      rw [screen] at lines
      exact ⟨srcColumns, srcRows, destColumns, destRows,
        fun _ => (lines_fit_iff srcRows destRows same.1 covers).mp lines,
        fun differs => absurd same differs⟩
    · intro region
      have lines : ∀ y < height, LineFits fbInfo src dest (width * fbInfo.bytePerPixel.toNat)
          (fbInfo.pitch * fbInfo.height) y :=
        (lines_fit_iff region.srcRows region.destRows same.1 covers).mpr (region.fast same)
      rw [← screen] at lines
      obtain ⟨memory', done⟩ := (blitFastLines_isSome_iff fits limit height).mpr lines
      exact ⟨memory', (), region.srcColumns, (), region.srcRows, (), region.destColumns, (),
        region.destRows, _, ⟨chunk_lt narrow region.destColumns, rfl⟩, done⟩
  · simp only [same, if_false, blitSlow, bind_eq_some, assertWithin_eq_some_iff srcLimits.1,
      assertWithin_eq_some_iff srcLimits.2, assertWithin_eq_some_iff destLimits.1,
      assertWithin_eq_some_iff destLimits.2]
    constructor
    · rintro ⟨memory', -, destColumns, -, destRows, -, srcColumns, -, srcRows, done⟩
      have copies := (blitSlowLines_isSome_iff limit fits width height).mp ⟨memory', done⟩
      rw [screen] at copies
      exact ⟨srcColumns, srcRows, destColumns, destRows, fun equal => absurd equal same,
        fun _ => (copies_fit_iff srcColumns srcRows destColumns destRows covers).mp copies⟩
    · intro region
      have copies := (copies_fit_iff region.srcColumns region.srcRows region.destColumns
        region.destRows covers).mpr (region.slow same)
      rw [← screen] at copies
      obtain ⟨memory', done⟩ := (blitSlowLines_isSome_iff limit fits width height).mpr copies
      exact ⟨memory', (), region.destColumns, (), region.destRows, (), region.srcColumns, (),
        region.srcRows, done⟩

/-- A blit only changes bytes of the destination rectangle. -/
theorem blit_within (limit : memory.len < 2 ^ 64) (fits : src.buffer.len < 2 ^ 64)
    (done : blit fbInfo memory src dest width height = some memory') :
    Within (InRect fbInfo dest width height) memory memory' := by
  have destLimits := fbInfo.usize
  unfold blit at done
  by_cases same : sameFormat fbInfo src.info
  · simp only [same, if_true, blitFast, bind_eq_some, assertWithin_eq_some_iff destLimits.1,
      assertWithin_eq_some_iff destLimits.2, usizeMul_eq_some_iff] at done
    obtain ⟨-, -, -, -, -, columns, -, rows, -, ⟨-, rfl⟩, done⟩ := done
    refine (blitFastLines_within fits limit height done).mono ?_
    rintro a ⟨y, below, inside⟩
    exact inRect_of_inLine columns rows below inside
  · simp only [same, if_false, blitSlow, bind_eq_some, assertWithin_eq_some_iff destLimits.1,
      assertWithin_eq_some_iff destLimits.2] at done
    obtain ⟨-, columns, -, rows, -, -, -, -, done⟩ := done
    refine (blitSlowLines_within width height done).mono ?_
    rintro a ⟨y, below, x, left, inside⟩
    exact ⟨x, left, y, below, by omega, by omega, inside⟩

end

end Emerald.Graphics
