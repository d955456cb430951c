
import Emerald.Fs.Fat.Proofs.Sectors
import Emerald.Misc.Reachable

/-!
# The table in memory and on the disk

`write_fat_entry` changes the buffer of the table and marks the sectors it touches;
`flush_fat` writes the marked sectors one by one and may stop half way. In every run the sectors
that differ from the disk are marked, and a flush that returns leaves none.
-/

namespace Emerald.Fs

open MemoryManagement (kernelHeapSize)

variable {fs t : FatFilesystem} {sector entry : Nat}

namespace Fat
variable {fat fat' : Fat}

/-! ## The bitmap -/

/-- The bit of a sector in `dirty_bitmap`. -/
def isDirtySector (fat : Fat) (sector : Nat) : Bool :=
  (fat.dirtyBitmap.getD (sector / 64) 0).getLsbD (sector % 64)

theorem and_one_ne_zero_iff (word : BitVec 64) : word &&& 1 ≠ 0 ↔ word.getLsbD 0 = true := by
  have low : word &&& 1 = BitVec.setWidth 64 (BitVec.ofBool (word.getLsbD 0)) :=
    BitVec.and_one_eq_setWidth_ofBool_getLsbD
  rw [low]
  cases word.getLsbD 0 <;> decide

/-- The iterator gives the bits that are set among the lowest `fuel` ones. -/
theorem mem_dirtyBits {index fuel bit : Nat} {dirty : BitVec 64} :
    sector ∈ dirtyBits index fuel dirty bit ↔
      ∃ j, j < fuel ∧ dirty.getLsbD j = true ∧ sector = wrap32 (index * 64 + bit + j) := by
  induction fuel generalizing dirty bit with
  | zero => simp [dirtyBits]
  | succ fuel ih =>
    have shifted : ∀ j, (dirty >>> 1).getLsbD j = dirty.getLsbD (j + 1) := by
      intro j
      rw [BitVec.getLsbD_ushiftRight, add_comm]
    have later : sector ∈ dirtyBits index fuel (dirty >>> 1) (bit + 1) ↔
        ∃ j, j < fuel ∧ dirty.getLsbD (j + 1) = true ∧
          sector = wrap32 (index * 64 + bit + (j + 1)) := by
      rw [ih]
      simp only [shifted, add_assoc, add_comm 1]
    -- the lowest bit is the witness 0, and every later bit is one of the shifted word
    have split : (∃ j, j < fuel + 1 ∧ dirty.getLsbD j = true ∧
        sector = wrap32 (index * 64 + bit + j)) ↔
        (dirty.getLsbD 0 = true ∧ sector = wrap32 (index * 64 + bit)) ∨
          sector ∈ dirtyBits index fuel (dirty >>> 1) (bit + 1) := by
      rw [later]
      constructor
      · rintro ⟨j, below, set, rfl⟩
        cases j with
        | zero => exact .inl ⟨set, rfl⟩
        | succ j => exact .inr ⟨j, by omega, set, rfl⟩
      · rintro (⟨set, rfl⟩ | ⟨j, below, set, rfl⟩)
        · exact ⟨0, by omega, set, rfl⟩
        · exact ⟨j + 1, by omega, set, rfl⟩
    rw [split, dirtyBits]
    by_cases empty : dirty = 0
    · rw [if_pos empty]
      constructor
      · intro mem
        simp at mem
      · rintro (⟨set, -⟩ | mem)
        · simp [empty] at set
        · obtain ⟨j, -, set, -⟩ := later.mp mem
          simp [empty] at set
    · rw [if_neg empty]
      by_cases low : dirty.getLsbD 0 = true
      · rw [if_pos ((and_one_ne_zero_iff dirty).mpr low), List.mem_cons]
        simp only [low, true_and]
      · rw [if_neg (fun set => low ((and_one_ne_zero_iff dirty).mp set))]
        simp only [low, Bool.false_eq_true, false_and, false_or]

/-- The sectors of the iterator are those whose bit is set. -/
theorem mem_dirtySectors {sectors : List Nat} (small : fat.dirtyBitmap.length < 2 ^ 26)
    (dirty : fat.dirtySectors = some sectors) :
    sector ∈ sectors ↔ sector < 64 * fat.dirtyBitmap.length ∧ fat.isDirtySector sector = true := by
  obtain ⟨-, dirty⟩ := Option.ite_none_right_eq_some.mp dirty
  cases dirty
  simp only [List.mem_flatMap, Prod.exists, List.mem_zipIdx_iff_getElem?, mem_dirtyBits,
    isDirtySector, wrap32]
  constructor
  · rintro ⟨word, index, found, j, below, set, rfl⟩
    obtain ⟨inside, -⟩ := List.getElem?_eq_some_iff.mp found
    have value : (index * 64 + 0 + j) % 2 ^ 32 = index * 64 + j := by
      omega
    have quotient : (index * 64 + j) / 64 = index := by omega
    have rest : (index * 64 + j) % 64 = j := by omega
    rw [value, quotient, rest, List.getD_eq_getElem?_getD, found]
    exact ⟨by omega, set⟩
  · rintro ⟨inside, set⟩
    have within : sector / 64 < fat.dirtyBitmap.length := by omega
    refine ⟨_, sector / 64, List.getElem?_eq_getElem within, sector % 64, by omega, ?_, ?_⟩
    · rwa [List.getD_eq_getElem?_getD, List.getElem?_eq_getElem within] at set
    · omega

theorem isDirtySector_markSectorDirty {marked : Nat}
    (done : fat.markSectorDirty marked = some fat') (sector : Nat) :
    fat'.isDirtySector sector = true ↔ sector = marked ∨ fat.isDirtySector sector = true := by
  obtain ⟨word, found, done⟩ := bind_eq_some.mp done
  cases done
  obtain ⟨inside, value⟩ := List.getElem?_eq_some_iff.mp found
  unfold isDirtySector
  rw [List.getD_eq_getElem?_getD, List.getD_eq_getElem?_getD, List.getElem?_set]
  by_cases sameWord : marked / 64 = sector / 64
  · rw [if_pos sameWord, if_pos inside, ← sameWord, found]
    simp only [Option.getD_some, BitVec.getLsbD_or, BitVec.getLsbD_shiftLeft, Bool.or_eq_true,
      Bool.and_eq_true, decide_eq_true_eq, Bool.not_eq_true', decide_eq_false_iff_not,
      BitVec.getLsbD_one]
    constructor
    · rintro (set | set)
      · exact .inr set
      · exact .inl (by omega)
    · rintro (rfl | set)
      · exact .inr (by omega)
      · exact .inl set
  · rw [if_neg sameWord]
    constructor
    · exact .inr
    · rintro (rfl | set)
      · exact absurd rfl sameWord
      · exact set

/-! ## Writing an entry -/

theorem length_encodeEntry {ty : FatType} {new : Nat} {bytes : List UInt8}
    (length : bytes.length = ty.window) : (encodeEntry ty entry bytes new).length = ty.window := by
  unfold encodeEntry
  split
  · split <;> rfl
  · exact length
  · exact length_toLE 2 new
  · exact length_toLE 4 new

/-- What `write_fat_entry` leaves as it was, and the bits it adds. -/
structure Written (fat fat' : Fat) (entry : Nat) : Prop where
  sectorSize : fat'.sectorSize = fat.sectorSize
  fatType : fat'.fatType = fat.fatType
  bitmap : fat'.dirtyBitmap.length = fat.dirtyBitmap.length
  dirty : fat'.dirty = true
  length : fat'.buffer.length = fat.buffer.length
  kept : ∀ sector, fat.isDirtySector sector = true → fat'.isDirtySector sector = true
  first : fat'.isDirtySector (fat.fatType.fatOffset entry / fat.sectorSize) = true
  second : fat.fatType = .fat12 →
    fat'.isDirtySector ((fat.fatType.fatOffset entry + 1) / fat.sectorSize) = true
  only : ∀ sector, fat'.isDirtySector sector = true → fat.isDirtySector sector = true ∨
    sector = fat.fatType.fatOffset entry / fat.sectorSize ∨
      sector = (fat.fatType.fatOffset entry + 1) / fat.sectorSize
  inside : fat.fatType.fatOffset entry + fat.fatType.window ≤ fat.buffer.length
  outside : ∀ i, (i < fat.fatType.fatOffset entry ∨
    fat.fatType.fatOffset entry + fat.fatType.window ≤ i) → fat'.buffer[i]? = fat.buffer[i]?

/-- At most the marks of the sectors differ. -/
structure SameTable (fat fat' : Fat) : Prop where
  buffer : fat'.buffer = fat.buffer
  sectorSize : fat'.sectorSize = fat.sectorSize
  fatType : fat'.fatType = fat.fatType
  bitmap : fat'.dirtyBitmap.length = fat.dirtyBitmap.length

theorem markSectorDirty_same {marked : Nat} (done : fat.markSectorDirty marked = some fat') :
    SameTable fat fat' := by
  obtain ⟨word, -, done⟩ := bind_eq_some.mp done
  cases done
  exact ⟨rfl, rfl, rfl, List.length_set⟩

theorem markEntryDirty_spec {offset : Nat} (done : fat.markEntryDirty offset = some fat') :
    SameTable fat fat' ∧
      (∀ sector, fat.isDirtySector sector = true → fat'.isDirtySector sector = true) ∧
      fat'.isDirtySector (offset / fat.sectorSize) = true ∧
      (fat.fatType = .fat12 → fat'.isDirtySector ((offset + 1) / fat.sectorSize) = true) ∧
      ∀ sector, fat'.isDirtySector sector = true → fat.isDirtySector sector = true ∨
        sector = offset / fat.sectorSize ∨ sector = (offset + 1) / fat.sectorSize := by
  obtain ⟨mid, marked, done⟩ := bind_eq_some.mp done
  obtain ⟨buffer, size, ty, bitmap⟩ := markSectorDirty_same marked
  have bits := isDirtySector_markSectorDirty marked
  split at done
  · obtain ⟨buffer', size', ty', bitmap'⟩ := markSectorDirty_same done
    have bits' := isDirtySector_markSectorDirty done
    refine ⟨⟨buffer'.trans buffer, size'.trans size, ty'.trans ty, bitmap'.trans bitmap⟩,
      ?_, ?_, ?_, ?_⟩
    · intro sector set
      exact (bits' sector).mpr (.inr ((bits sector).mpr (.inr set)))
    · exact (bits' _).mpr (.inr ((bits _).mpr (.inl rfl)))
    · intro _
      exact (bits' _).mpr (.inl (by rw [size]))
    · intro sector set
      rcases (bits' sector).mp set with second | set
      · exact .inr (.inr (by rw [second, size]))
      · rcases (bits sector).mp set with first | old
        · exact .inr (.inl first)
        · exact .inl old
  · rename_i aligned
    cases done
    refine ⟨⟨buffer, size, ty, bitmap⟩, ?_, (bits _).mpr (.inl rfl), ?_, ?_⟩
    · intro sector set
      exact (bits sector).mpr (.inr set)
    · intro crossing
      exact absurd (ty.trans crossing) aligned
    · intro sector set
      rcases (bits sector).mp set with first | old
      · exact .inr (.inl first)
      · exact .inl old

theorem writeFatEntry_written {fatEntry : FatEntry}
    (done : fat.writeFatEntry entry fatEntry = some fat') : Written fat fat' entry := by
  obtain ⟨bytes, taken, done⟩ := bind_eq_some.mp done
  obtain ⟨new, -, done⟩ := bind_eq_some.mp done
  obtain ⟨marked, marks, done⟩ := bind_eq_some.mp done
  cases done
  obtain ⟨⟨buffer, size, ty, bitmap⟩, kept, first, second, only⟩ := markEntryDirty_spec marks
  have width : (encodeEntry fat.fatType entry bytes new).length = fat.fatType.window :=
    length_encodeEntry (length_of_slice? taken)
  have inside : fat.fatType.fatOffset entry +
      (encodeEntry fat.fatType entry bytes new).length ≤ fat.buffer.length := by
    rw [width]
    exact (slice?_eq_some_iff.mp taken).1
  refine ⟨size, ty, bitmap, rfl, ?_, kept, first, second, only, width ▸ inside, ?_⟩
  · show marked.buffer.length = _
    rw [buffer]
    exact length_splice inside
  · intro i outside
    show marked.buffer[i]? = _
    rw [buffer, getElem?_splice inside, if_neg (by omega)]

/-- An entry that is aligned to its width does not cross a sector. -/
theorem div_eq_of_aligned {width offset size i : Nat} (aligned : width ∣ offset)
    (dvd : width ∣ size) (above : offset ≤ i) (below : i < offset + width) :
    i / size = offset / size := by
  obtain ⟨a, rfl⟩ := aligned
  obtain ⟨b, rfl⟩ := dvd
  have pos : 0 < width := by omega
  rw [← Nat.div_div_eq_div_mul, ← Nat.div_div_eq_div_mul, Nat.mul_div_cancel_left _ pos]
  congr 1
  obtain ⟨r, rfl⟩ := Nat.exists_eq_add_of_le above
  rw [Nat.mul_add_div pos, Nat.div_eq_of_lt (by omega), add_zero]

/-- Every byte of a written entry lies in a sector that is marked. -/
theorem Written.marked (written : Written fat fat' entry) (dvd : 4 ∣ fat.sectorSize)
    {i : Nat} (above : fat.fatType.fatOffset entry ≤ i)
    (below : i < fat.fatType.fatOffset entry + fat.fatType.window) :
    fat'.isDirtySector (i / fat.sectorSize) = true := by
  have first := written.first
  cases ty : fat.fatType with
  | fat12 =>
    have second := written.second ty
    rw [ty] at above below first second
    have : i = FatType.fat12.fatOffset entry ∨ i = FatType.fat12.fatOffset entry + 1 := by
      change i < FatType.fat12.fatOffset entry + 2 at below
      omega
    rcases this with rfl | rfl
    · exact first
    · exact second
  | fat16 =>
    rw [ty] at above below first
    have aligned : 2 ∣ FatType.fat16.fatOffset entry := by
      show 2 ∣ wrap32 (entry * 2)
      unfold wrap32
      omega
    rw [div_eq_of_aligned aligned (dvd_trans (by decide) dvd) above below]
    exact first
  | fat32 =>
    rw [ty] at above below first
    have aligned : 4 ∣ FatType.fat32.fatOffset entry := by
      show 4 ∣ wrap32 (entry * 4)
      unfold wrap32
      omega
    rw [div_eq_of_aligned aligned dvd above below]
    exact first

theorem clearDirty_same (fat : Fat) : SameTable fat fat.clearDirty := by
  unfold clearDirty
  split
  · exact ⟨rfl, rfl, rfl, List.length_map ..⟩
  · exact ⟨rfl, rfl, rfl, rfl⟩

theorem isDirtySector_of_clearDirty {fat : Fat}
    (marked : fat.clearDirty.isDirtySector sector = true) : fat.isDirtySector sector = true := by
  unfold clearDirty at marked
  split at marked
  · unfold isDirtySector at marked
    rw [List.getD_eq_getElem?_getD, List.getElem?_map] at marked
    cases word : fat.dirtyBitmap[sector / 64]? <;> rw [word] at marked <;> simp at marked
  · exact marked

end Fat

/-! ## The table on the disk -/

namespace FatFilesystem
variable {u : FatFilesystem}

/-- The byte of the disk that a byte of the table is loaded from. -/
def fatByteOnDisk (fs : FatFilesystem) (i : Nat) : UInt8 :=
  fs.disk.bytes (fs.bootSector.fatStartSector * fs.bootSector.bytesPerSector + i)

/-- A sector of the table on the disk. -/
def fatSectorOnDisk (fs : FatFilesystem) (sector : Nat) : List UInt8 :=
  readBytes fs.disk.bytes ((fs.bootSector.fatStartSector + sector) * fs.bootSector.bytesPerSector)
    fs.bootSector.bytesPerSector

/-- A sector of the table in memory. -/
def fatSectorInBuffer (fs : FatFilesystem) (sector : Nat) : List UInt8 :=
  (fs.fat.buffer.drop (sector * fs.bootSector.bytesPerSector)).take fs.bootSector.bytesPerSector

/-- All copies of the table on the disk. -/
def fatAreaOnDisk (fs : FatFilesystem) : List UInt8 :=
  readBytes fs.disk.bytes (fs.bootSector.fatStartSector * fs.bootSector.bytesPerSector)
    (fs.bootSector.bytesPerSector * fs.bootSector.fatsSizeInSectors)

/-- The table has the shape that `Fat::load` gives it. -/
structure TableShape (fs : FatFilesystem) : Prop where
  sectorSize : fs.fat.sectorSize = fs.bootSector.bytesPerSector
  length : fs.fat.buffer.length = fs.bootSector.bytesPerSector * fs.bootSector.fatsSizeInSectors
  bitmap : fs.fat.dirtyBitmap.length = (fs.bootSector.fatsSizeInSectors + 63) / 64
  fits : fs.fat.buffer.length ≤ kernelHeapSize

/-- The bytes that differ from the disk lie in marked sectors. -/
def BytesMarked (fs : FatFilesystem) : Prop :=
  ∀ i, i < fs.fat.buffer.length → fs.fat.buffer[i]? ≠ some (fs.fatByteOnDisk i) →
    fs.fat.dirty = true ∧ fs.fat.isDirtySector (i / fs.bootSector.bytesPerSector) = true

/-- Only sectors of the table are marked. -/
def BitsInside (fs : FatFilesystem) : Prop :=
  ∀ sector, fs.fat.isDirtySector sector = true → sector < fs.bootSector.fatsSizeInSectors

/-- Only bytes of the table were written to the disk. -/
structure FlushedTo (fs t : FatFilesystem) : Prop where
  fat : t.fat = fs.fat
  bootSector : t.bootSector = fs.bootSector
  startLba : t.startLba = fs.startLba
  clusterCache : t.clusterCache = fs.clusterCache
  inside : ∀ i, i < fs.fat.buffer.length →
    t.fatByteOnDisk i = fs.fatByteOnDisk i ∨ some (t.fatByteOnDisk i) = fs.fat.buffer[i]?
  outside : ∀ a, a < fs.bootSector.fatStartSector * fs.bootSector.bytesPerSector ∨
    fs.bootSector.fatStartSector * fs.bootSector.bytesPerSector + fs.fat.buffer.length ≤ a →
      t.disk.bytes a = fs.disk.bytes a

theorem FlushedTo.refl (fs : FatFilesystem) (f : FaultIn) : FlushedTo fs (fs.withFaultIn f) :=
  ⟨rfl, rfl, rfl, rfl, fun _ _ => .inl rfl, fun _ _ => rfl⟩

theorem FlushedTo.trans (first : FlushedTo fs t) (second : FlushedTo t u) :
    FlushedTo fs u where
  fat := second.fat.trans first.fat
  bootSector := second.bootSector.trans first.bootSector
  startLba := second.startLba.trans first.startLba
  clusterCache := second.clusterCache.trans first.clusterCache
  inside := by
    intro i below
    rcases second.inside i (by rw [first.fat]; exact below) with same | written
    · rcases first.inside i below with same' | written'
      · exact .inl (same.trans same')
      · exact .inr (same ▸ written')
    · exact .inr (written.trans (by rw [first.fat]))
  outside := by
    intro a apart
    rw [second.outside a (by rw [first.fat, first.bootSector]; exact apart), first.outside a apart]

/-- A byte that is in order stays so while the table is written. -/
theorem FlushedTo.keeps (flushed : FlushedTo fs t) {i : Nat} (below : i < fs.fat.buffer.length)
    (same : fs.fat.buffer[i]? = some (fs.fatByteOnDisk i)) :
    fs.fat.buffer[i]? = some (t.fatByteOnDisk i) := by
  rcases flushed.inside i below with kept | written
  · rw [kept, same]
  · exact written.symm

theorem TableShape.of_same (shape : TableShape fs) (same : Fat.SameTable fs.fat t.fat)
    (boot : t.bootSector = fs.bootSector) : TableShape t where
  sectorSize := by rw [same.sectorSize, boot, shape.sectorSize]
  length := by rw [same.buffer, boot, shape.length]
  bitmap := by rw [same.bitmap, boot, shape.bitmap]
  fits := by rw [same.buffer]; exact shape.fits

theorem FlushedTo.shape (flushed : FlushedTo fs t) (shape : TableShape fs) : TableShape t :=
  shape.of_same (flushed.fat ▸ ⟨rfl, rfl, rfl, rfl⟩) flushed.bootSector

theorem FlushedTo.marked (flushed : FlushedTo fs t) (marked : BytesMarked fs) : BytesMarked t := by
  intro i below differs
  rw [flushed.fat] at below differs ⊢
  rw [flushed.bootSector]
  exact marked i below fun same => differs (flushed.keeps below same)

/-- One sector of the table stored on the disk. -/
theorem flushedTo_storeSectors (shape : TableShape fs) {data : List UInt8}
    (small : sector * fs.bootSector.bytesPerSector < 2 ^ 32)
    (taken : fs.fat.sectorData sector = some data) :
    FlushedTo fs (fs.storeSectors (fs.bootSector.fatStartSector + sector) data) ∧
      ∀ i, i / fs.bootSector.bytesPerSector = sector → some
        ((fs.storeSectors (fs.bootSector.fatStartSector + sector) data).fatByteOnDisk i) =
          fs.fat.buffer[i]? := by
  unfold Fat.sectorData wrap32 at taken
  rw [shape.sectorSize, Nat.mod_eq_of_lt small] at taken
  have length := length_of_slice? taken
  have inside := (slice?_eq_some_iff.mp taken).1
  have start : (fs.bootSector.fatStartSector + sector) * fs.bootSector.bytesPerSector =
      fs.bootSector.fatStartSector * fs.bootSector.bytesPerSector +
        sector * fs.bootSector.bytesPerSector := add_mul ..
  have stored : ∀ i, sector * fs.bootSector.bytesPerSector ≤ i →
      i < sector * fs.bootSector.bytesPerSector + fs.bootSector.bytesPerSector → some
        ((fs.storeSectors (fs.bootSector.fatStartSector + sector) data).fatByteOnDisk i) =
          fs.fat.buffer[i]? := by
    intro i above below
    obtain ⟨r, rfl⟩ := Nat.exists_eq_add_of_le above
    have within : r < fs.bootSector.bytesPerSector := by omega
    unfold fatByteOnDisk
    rw [storeSectors_bytes, storeSectors_bootSector, ← add_assoc, ← start,
      writeBytes_inside _ (by omega), getElem?_of_slice? taken within]
  refine ⟨⟨rfl, rfl, rfl, rfl, ?_, ?_⟩, ?_⟩
  · intro i below
    by_cases within : sector * fs.bootSector.bytesPerSector ≤ i ∧
        i < sector * fs.bootSector.bytesPerSector + fs.bootSector.bytesPerSector
    · exact .inr (stored i within.1 within.2)
    · refine .inl ?_
      exact writeBytes_outside _ (by rw [storeSectors_bootSector]; omega)
  · intro a apart
    exact writeBytes_outside _ (by omega)
  · intro i quotient
    have bounds := Nat.div_add_mod i fs.bootSector.bytesPerSector
    have rest := Nat.mod_lt i fs.bootSector.bytesPerSector_pos
    rw [quotient, mul_comm] at bounds
    exact stored i (by omega) (by omega)

theorem FlushedTo.fatAreaOnDisk_eq (flushed : FlushedTo fs u) (shape : TableShape fs)
    (equal : ∀ i, i < fs.fat.buffer.length → fs.fat.buffer[i]? = some (u.fatByteOnDisk i)) :
    fatAreaOnDisk { u with fat := u.fat.clearDirty } = u.fat.clearDirty.buffer := by
  rw [u.fat.clearDirty_same.buffer, flushed.fat]
  show readBytes u.disk.bytes _ (u.bootSector.bytesPerSector * u.bootSector.fatsSizeInSectors) = _
  rw [flushed.bootSector, ← shape.length]
  apply List.ext_getElem?
  intro i
  by_cases below : i < fs.fat.buffer.length
  · rw [getElem?_readBytes _ _ below, equal i below]
    unfold fatByteOnDisk
    rw [flushed.bootSector]
  · rw [List.getElem?_eq_none (by rw [length_readBytes]; omega), List.getElem?_eq_none (by omega)]

theorem TableShape.bitmap_small (shape : TableShape fs) :
    64 * fs.fat.dirtyBitmap.length * fs.bootSector.bytesPerSector < 2 ^ 32 := by
  have fits := shape.fits
  rw [shape.length] at fits
  have sizes := fs.bootSector.bytesPerSector_mem
  rw [shape.bitmap]
  have words : 64 * ((fs.bootSector.fatsSizeInSectors + 63) / 64) ≤
      fs.bootSector.fatsSizeInSectors + 63 := Nat.mul_div_le ..
  have area := Nat.mul_le_mul_right fs.bootSector.bytesPerSector words
  rw [add_mul, mul_comm fs.bootSector.fatsSizeInSectors] at area
  simp only [List.mem_cons, List.not_mem_nil, or_false] at sizes
  unfold kernelHeapSize at fits
  omega

theorem TableShape.words (shape : TableShape fs) : fs.fat.dirtyBitmap.length < 2 ^ 26 := by
  have area := shape.bitmap_small
  have := Nat.le_mul_of_pos_right (64 * fs.fat.dirtyBitmap.length) fs.bootSector.bytesPerSector_pos
  omega

end FatFilesystem

open FatFilesystem

/-- The loop of a flush: every sector it comes to is stored. -/
theorem writeFatSectors_meets (shape : TableShape fs) {sectors : List Nat}
    (small : ∀ sector ∈ sectors, sector * fs.bootSector.bytesPerSector < 2 ^ 32) :
    Meets (writeFatSectors sectors) fs
      (fun _ t => FlushedTo fs t ∧ ∀ i, i < fs.fat.buffer.length →
        i / fs.bootSector.bytesPerSector ∈ sectors →
          fs.fat.buffer[i]? = some (t.fatByteOnDisk i))
      (fun e t => (e = .panic .assertion ∨ e.IsDisk) ∧ FlushedTo fs t) := by
  induction sectors generalizing fs with
  | nil =>
    refine ⟨FlushedTo.refl fs fs.disk.faultIn, ?_⟩
    intro i _ mem
    simp at mem
  | cons sector rest ih =>
    apply meets_get_bind.mpr
    apply Meets.bind (fun data t => t = fs ∧ fs.fat.sectorData sector = some data)
    · apply Meets.orPanic
      · intro data taken
        exact ⟨rfl, taken⟩
      · intro _
        exact ⟨.inl rfl, FlushedTo.refl fs fs.disk.faultIn⟩
    · rintro data _ ⟨rfl, taken⟩
      apply meets_get_bind.mpr
      obtain ⟨stored, here⟩ := flushedTo_storeSectors shape (small sector (by simp)) taken
      refine Meets.bind _ ((writeSectors_meets _ _ data).mono (fun _ _ done => done) ?_) ?_
      · rintro e t ⟨why, f, rfl⟩
        exact ⟨why, FlushedTo.refl _ f⟩
      · rintro - _ ⟨f, rfl⟩
        have moved := stored.trans (FlushedTo.refl _ f)
        refine (ih (moved.shape shape) fun s mem => small s (by simp [mem])).mono ?_ ?_
        · rintro - t ⟨flushed, written⟩
          refine ⟨moved.trans flushed, ?_⟩
          intro i below mem
          rcases List.mem_cons.mp mem with first | later
          · exact flushed.keeps below (here i first).symm
          · exact written i below later
        · rintro e t ⟨why, flushed⟩
          exact ⟨why, moved.trans flushed⟩

/-- A flush that returns has stored every sector that differed; one that stops has only brought
the disk nearer to the table. -/
theorem flushFat_meets (shape : TableShape fs) (marked : BytesMarked fs) :
    Meets flushFat fs
      (fun _ t => ∃ u, FlushedTo fs u ∧ t = { u with fat := u.fat.clearDirty } ∧
        ∀ i, i < fs.fat.buffer.length → fs.fat.buffer[i]? = some (u.fatByteOnDisk i))
      (fun e t => (e = .panic .assertion ∨ e.IsDisk) ∧ FlushedTo fs t) := by
  have area := shape.bitmap_small
  apply meets_get_bind.mpr
  cases dirty : fs.fat.dirtySectors with
  | none =>
    -- nothing is marked, so nothing differs
    have clean : fs.fat.dirty = false := by
      unfold Fat.dirtySectors at dirty
      split at dirty
      · cases dirty
      · simp_all
    refine ⟨fs, FlushedTo.refl fs fs.disk.faultIn, rfl, ?_⟩
    intro i below
    by_contra differs
    exact absurd (marked i below differs).1 (by simp [clean])
  | some sectors =>
    have members : ∀ sector, sector ∈ sectors ↔ sector < 64 * fs.fat.dirtyBitmap.length ∧
        fs.fat.isDirtySector sector = true := fun _ => Fat.mem_dirtySectors shape.words dirty
    apply Meets.bind _ (writeFatSectors_meets shape ?_)
    · rintro - t ⟨flushed, written⟩
      refine ⟨t, flushed, rfl, ?_⟩
      intro i below
      by_contra differs
      have unmarked : fs.fat.buffer[i]? ≠ some (fs.fatByteOnDisk i) :=
        fun same => differs (flushed.keeps below same)
      refine differs (written i below ((members _).mpr ⟨?_, (marked i below unmarked).2⟩))
      rw [Nat.div_lt_iff_lt_mul fs.bootSector.bytesPerSector_pos]
      rw [shape.length] at below
      rw [shape.bitmap]
      have covers : fs.bootSector.fatsSizeInSectors ≤
          64 * ((fs.bootSector.fatsSizeInSectors + 63) / 64) := by
        omega
      have := Nat.mul_le_mul_right fs.bootSector.bytesPerSector covers
      rw [mul_comm] at below
      omega
    · intro sector mem
      have := ((members sector).mp mem).1
      have := Nat.mul_le_mul_right fs.bootSector.bytesPerSector (le_of_lt this)
      omega

/-! ## Runs -/

/-- The calls that change the table. The device may fail a sector write of a flush. -/
inductive TableCall
  | writeFatEntry (entry : Nat) (fatEntry : FatEntry)
  | flushFat (faultIn : FaultIn)

namespace TableCall
variable {boot : FatBootSector} {startLba : Nat} {disk : Disk}

/-- The filesystem after a call. -/
def run (fs : FatFilesystem) : TableCall → Option FatFilesystem
  | writeFatEntry entry fatEntry => stateAfter (Fs.writeFatEntry entry fatEntry fs)
  | flushFat faultIn => stateAfter (Fs.flushFat (fs.withFaultIn faultIn))

/-- The states of a mounted filesystem in which only the table has been changed. -/
def Reached : FatFilesystem → Prop :=
  Reachable (fun fs call t => run fs call = some t) (fun _ _ => True)
    fun fs => ∃ startLba boot disk, mount startLba boot disk = .ok () fs

/-- A sector differs in one of its bytes. -/
theorem exists_byte_of_sector_ne (shape : TableShape fs)
    (inside : sector < fs.bootSector.fatsSizeInSectors)
    (differs : fs.fatSectorInBuffer sector ≠ fs.fatSectorOnDisk sector) :
    ∃ i, i < fs.fat.buffer.length ∧ i / fs.bootSector.bytesPerSector = sector ∧
      fs.fat.buffer[i]? ≠ some (fs.fatByteOnDisk i) := by
  have area := Nat.mul_le_mul_right fs.bootSector.bytesPerSector (Nat.succ_le_of_lt inside)
  rw [Nat.succ_mul, mul_comm fs.bootSector.fatsSizeInSectors, ← shape.length] at area
  by_contra same
  apply differs
  apply List.ext_getElem?
  intro i
  unfold fatSectorInBuffer fatSectorOnDisk
  by_cases below : i < fs.bootSector.bytesPerSector
  · rw [List.getElem?_take_of_lt below, List.getElem?_drop, getElem?_readBytes _ _ below,
      add_mul, add_assoc]
    by_contra byte
    refine same ⟨sector * fs.bootSector.bytesPerSector + i, by omega, ?_, byte⟩
    rw [mul_comm, Nat.mul_add_div fs.bootSector.bytesPerSector_pos, Nat.div_eq_of_lt below,
      add_zero]
  · rw [List.getElem?_eq_none (by rw [List.length_take]; omega),
      List.getElem?_eq_none (by rw [length_readBytes]; omega)]

/-- `FatFilesystem::new` loads the table and caches nothing. -/
theorem mount_eq (mounted : mount startLba boot disk = .ok () fs) :
    (∃ f, fs = ⟨startLba, boot, ⟨readBytes disk.bytes (boot.fatStartSector * boot.bytesPerSector)
        (boot.bytesPerSector * boot.fatsSizeInSectors), boot.bytesPerSector, boot.ty, false,
        List.replicate ((boot.fatsSizeInSectors + 63) / 64) 0⟩, ⟨disk.bytes, f⟩, SortedMap.empty⟩) ∧
      boot.bytesPerSector * boot.fatsSizeInSectors ≤ kernelHeapSize := by
  obtain ⟨fat, loaded, load, modified⟩ := bind_ok mounted
  cases modified
  obtain ⟨_, _, got, load⟩ := bind_ok load
  cases got
  obtain ⟨buffer, t, read, made⟩ := bind_ok load
  cases made
  obtain ⟨⟨f, rfl⟩, data, fits⟩ := (readSectorsNoCache_meets _ _ _).of_ok read
  subst data
  exact ⟨⟨f, rfl⟩, fits⟩

theorem mount_marked
    (mounted : mount startLba boot disk = .ok () fs) : TableShape fs ∧ BytesMarked fs := by
  obtain ⟨⟨f, rfl⟩, fits⟩ := mount_eq mounted
  refine ⟨⟨rfl, length_readBytes .., List.length_replicate, ?_⟩, ?_⟩
  · rw [length_readBytes]
    exact fits
  · intro i below differs
    refine absurd ?_ differs
    rw [length_readBytes] at below
    exact getElem?_readBytes _ _ below

theorem run_marked {call : TableCall} (done : run fs call = some t) (shape : TableShape fs)
    (marked : BytesMarked fs) : TableShape t ∧ BytesMarked t := by
  cases call with
  | writeFatEntry entry fatEntry =>
    rcases stateAfter_meets (writeFatEntry_meets fs entry fatEntry) done with
      ⟨_, fat, write, rfl⟩ | ⟨_, panics, _⟩
    · have written := Fat.writeFatEntry_written write
      have dvd : 4 ∣ fs.fat.sectorSize := by
        rw [shape.sectorSize]
        exact fs.bootSector.four_dvd_bytesPerSector
      refine ⟨⟨written.sectorSize.trans shape.sectorSize, written.length.trans shape.length,
        written.bitmap.trans shape.bitmap, written.length ▸ shape.fits⟩, ?_⟩
      intro i below differs
      rw [written.length] at below
      refine ⟨written.dirty, ?_⟩
      show fat.isDirtySector _ = true
      -- a byte outside the entry was ne before, one inside it lies in a marked sector
      by_cases apart : i < fs.fat.fatType.fatOffset entry ∨
          fs.fat.fatType.fatOffset entry + fs.fat.fatType.window ≤ i
      · rw [written.outside i apart] at differs
        exact written.kept _ (marked i below differs).2
      · rw [← shape.sectorSize]
        exact written.marked dvd (by omega) (by omega)
    · cases panics
  | flushFat faultIn =>
    have shape' : TableShape (fs.withFaultIn faultIn) := (FlushedTo.refl fs faultIn).shape shape
    have marked' : BytesMarked (fs.withFaultIn faultIn) :=
      (FlushedTo.refl fs faultIn).marked marked
    rcases stateAfter_meets (flushFat_meets shape' marked') done with
      ⟨_, u, flushed, rfl, equal⟩ | ⟨_, -, flushed⟩
    · have shape'' := flushed.shape shape'
      refine ⟨shape''.of_same u.fat.clearDirty_same rfl, ?_⟩
      intro i below differs
      rw [u.fat.clearDirty_same.buffer, flushed.fat] at below differs
      exact absurd (equal i below) differs
    · exact ⟨flushed.shape shape', flushed.marked marked'⟩

theorem marked_of_reached : ∀ fs, Reached fs → TableShape fs ∧ BytesMarked fs := by
  refine Reachable.invariant ?_ ?_
  · rintro fs ⟨startLba, boot, disk, mounted⟩
    exact mount_marked mounted
  · intro fs call t inv _ done
    exact run_marked done inv.1 inv.2

/-- In every run the sectors of the table that differ from the disk are marked, and after a flush
that returns the disk holds the table. -/
theorem differing_sectors_dirty (fs : FatFilesystem) (reached : Reached fs) :
    (∀ sector, sector < fs.bootSector.fatsSizeInSectors →
      fs.fatSectorInBuffer sector ≠ fs.fatSectorOnDisk sector →
        fs.fat.dirty = true ∧ fs.fat.isDirtySector sector = true) ∧
    ∀ faultIn t, Fs.flushFat (fs.withFaultIn faultIn) = .ok () t →
      t.fatAreaOnDisk = t.fat.buffer := by
  obtain ⟨shape, marked⟩ := marked_of_reached fs reached
  constructor
  · intro sector inside differs
    obtain ⟨i, below, rfl, byte⟩ := exists_byte_of_sector_ne shape inside differs
    exact marked i below byte
  · intro faultIn t flush
    obtain ⟨u, flushed, rfl, equal⟩ := (flushFat_meets ((FlushedTo.refl fs faultIn).shape shape)
      ((FlushedTo.refl fs faultIn).marked marked)).of_ok flush
    exact flushed.fatAreaOnDisk_eq ((FlushedTo.refl fs faultIn).shape shape) equal

/-- A write of the table and a flush that fails leave the sector marked. -/
theorem differing_sectors_dirty_failedFlush :
    ∃ fs, Reached fs ∧ fs.fatSectorInBuffer 0 ≠ fs.fatSectorOnDisk 0 ∧
      fs.fat.dirty = true ∧ fs.fat.isDirtySector 0 = true := by
  obtain ⟨fs, reached, size, differs⟩ : ∃ fs, Reached fs ∧ fs.bootSector.fatsSizeInSectors = 1 ∧
      fs.fatSectorInBuffer 0 ≠ fs.fatSectorOnDisk 0 :=
    Reachable.exists_of_run ⟨_, _, _, mount_blankBoot⟩
      [.writeFatEntry 2 .endOfChain, .flushFat (some (0, .deviceError))] (by decide +kernel)
  exact ⟨fs, reached, differs,
    (differing_sectors_dirty fs reached).1 0 (by rw [size]; decide) differs⟩

end TableCall

end Emerald.Fs
