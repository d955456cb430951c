
import Emerald.Fs.Fat.Proofs.DirtySectors

/-!
# Reading back the table

An entry that is written is read back, and the other entries keep their values: in FAT16 and FAT32
they have bytes of their own, in FAT12 two neighbours share a byte of which each has one half.
-/

namespace Emerald.Fs

open FatFilesystem

variable {ty : FatType} {value : FatEntry} {n entry : Nat} {fs : FatFilesystem} {fat : Fat}

/-! ## The bits of an entry of FAT12 -/

section
variable {entry new : Nat} {byte1 byte2 : UInt8}

theorem decodeEntry_odd (odd : entry % 2 = 1) :
    decodeEntry .fat12 entry [byte1, byte2] = byte2.toNat * 16 + byte1.toNat / 16 := by
  have half : byte1.toNat / 16 < 2 ^ 4 := by
    have := byte1.toNat_lt
    omega
  have bit : entry &&& 1 = 1 := by rw [Nat.and_one_is_mod, odd]
  unfold decodeEntry
  dsimp only
  rw [if_pos bit, Nat.shiftRight_eq_div_pow, ← Nat.shiftLeft_add_eq_or_of_lt half, Nat.shiftLeft_eq]

theorem decodeEntry_even (even : entry % 2 = 0) :
    decodeEntry .fat12 entry [byte1, byte2] = byte2.toNat % 16 * 256 + byte1.toNat := by
  have small : byte1.toNat < 2 ^ 8 := byte1.toNat_lt
  have bit : ¬entry &&& 1 = 1 := by rw [Nat.and_one_is_mod, even]; decide
  have mask : byte2.toNat &&& 0xF = byte2.toNat % 16 := Nat.and_two_pow_sub_one_eq_mod _ 4
  unfold decodeEntry
  dsimp only
  rw [if_neg bit, mask, ← Nat.shiftLeft_add_eq_or_of_lt small, Nat.shiftLeft_eq]

theorem toNat_and_240 (byte : UInt8) : (byte &&& (0xF0 : UInt8)).toNat = byte.toNat / 16 * 16 := by
  have all : ∀ n : Fin 256, n.val &&& 240 = n.val / 16 * 16 := by decide +kernel
  exact all ⟨byte.toNat, byte.toNat_lt⟩

/-- An odd entry takes the upper half of the first byte. -/
theorem encodeEntry_odd (odd : entry % 2 = 1) (byte1 byte2 : UInt8) (new : Nat) :
    ∃ x y, encodeEntry .fat12 entry [byte1, byte2] new = [x, y] ∧
      x.toNat = new % 16 * 16 + byte1.toNat % 16 ∧ y.toNat = new / 16 % 256 := by
  have bit : entry &&& 1 = 1 := by rw [Nat.and_one_is_mod, odd]
  refine ⟨_, _, if_pos bit, ?_, ?_⟩
  · have mask : byte1.toNat &&& (0x0F : UInt8).toNat = byte1.toNat % 16 :=
      Nat.and_two_pow_sub_one_eq_mod _ 4
    have small : byte1.toNat % 16 < 2 ^ 4 := Nat.mod_lt _ (by decide)
    have upper : new <<< 4 % 2 ^ 8 = (new % 16) <<< 4 := by
      omega
    rw [UInt8.toNat_or, UInt8.toNat_and, mask, UInt8.toNat_ofNat', upper, Nat.or_comm,
      ← Nat.shiftLeft_add_eq_or_of_lt small, Nat.shiftLeft_eq]
  · rw [UInt8.toNat_ofNat', Nat.shiftRight_eq_div_pow]

/-- An even entry takes the lower half of the second byte. -/
theorem encodeEntry_even (even : entry % 2 = 0) (byte1 byte2 : UInt8) (small : new < 4096) :
    ∃ x y, encodeEntry .fat12 entry [byte1, byte2] new = [x, y] ∧
      x.toNat = new % 256 ∧ y.toNat = byte2.toNat / 16 * 16 + new / 256 := by
  have bit : ¬entry &&& 1 = 1 := by rw [Nat.and_one_is_mod, even]; decide
  refine ⟨_, _, if_neg bit, UInt8.toNat_ofNat' .., ?_⟩
  have low : new / 256 < 2 ^ 4 := by omega
  have upper : byte2.toNat / 16 * 16 = (byte2.toNat / 16) <<< 4 := by
    rw [Nat.shiftLeft_eq]
  rw [UInt8.toNat_or, toNat_and_240, UInt8.toNat_ofNat', Nat.shiftRight_eq_div_pow, upper,
    Nat.mod_eq_of_lt (by omega), ← Nat.shiftLeft_add_eq_or_of_lt low]

end

/-! ## The value that is written -/

theorem FatEntry.fromU32_toU32 (stored : value.toU32 ty = some n) :
    FatEntry.fromU32 ty n = value ∧ n ≤ ty.endOfChain := by
  have large : 2 < ty.endOfChain := by cases ty <;> decide
  unfold FatEntry.toU32 at stored
  unfold FatEntry.fromU32
  cases value with
  | free =>
    cases stored
    exact ⟨if_pos rfl, by omega⟩
  | endOfChain =>
    cases stored
    exact ⟨by rw [if_neg (by omega), if_pos le_rfl], le_rfl⟩
  | bad =>
    cases stored
    exact ⟨by rw [if_neg (by omega), if_neg (by omega), if_pos rfl], by omega⟩
  | next cluster =>
    dsimp only at stored
    split at stored
    · rename_i range
      cases stored
      exact ⟨by rw [if_neg (by omega), if_neg (by omega), if_neg (by omega), if_pos range],
        by omega⟩
    · cases stored
  | reserved => cases stored

theorem decodeEntry_encodeEntry (entry : Nat) {bytes : List UInt8}
    (length : bytes.length = ty.window) (small : n ≤ ty.endOfChain) :
    decodeEntry ty entry (encodeEntry ty entry bytes n) = n := by
  cases ty with
  | fat12 =>
    have small : n ≤ 0xFF8 := small
    obtain ⟨byte1, byte2, rfl⟩ := List.length_eq_two.mp length
    rcases Nat.mod_two_eq_zero_or_one entry with even | odd
    · obtain ⟨x, y, encoded, low, high⟩ := encodeEntry_even even byte1 byte2 (by omega : n < 4096)
      rw [encoded, decodeEntry_even even]
      omega
    · obtain ⟨x, y, encoded, low, high⟩ := encodeEntry_odd odd byte1 byte2 n
      rw [encoded, decodeEntry_odd odd]
      omega
  | fat16 =>
    have small : n ≤ 0xFFF8 := small
    show fromLE (toLE 2 n) = n
    rw [fromLE_toLE, Nat.mod_eq_of_lt (by omega)]
  | fat32 =>
    have small : n ≤ 0x0FFFFFF8 := small
    show fromLE (toLE 4 n) &&& 2 ^ 28 - 1 = n
    rw [fromLE_toLE, Nat.and_two_pow_sub_one_eq_mod, Nat.mod_eq_of_lt (a := n) (by omega),
      Nat.mod_eq_of_lt (by omega)]

/-- The offset in the table of the first byte of an entry. -/
def FatType.exactOffset (ty : FatType) (entry : Nat) : Nat :=
  match ty with
  | fat12 => entry * 3 / 2
  | fat16 => entry * 2
  | fat32 => entry * 4

/-- The offset of the entry is computed without overflow. -/
def FatType.Exact (ty : FatType) (entry : Nat) : Prop :=
  match ty with
  | fat12 => entry * 3 < 2 ^ 32
  | fat16 => entry * 2 < 2 ^ 32
  | fat32 => entry * 4 < 2 ^ 32

namespace Fat
variable {fat' : Fat} {entry other : Nat}

theorem writeFatEntry_eq (done : fat.writeFatEntry entry value = some fat') :
    ∃ bytes n, slice? fat.buffer (fat.fatType.fatOffset entry) fat.fatType.window = some bytes ∧
      value.toU32 fat.fatType = some n ∧ fat'.fatType = fat.fatType ∧
      fat'.buffer = splice fat.buffer (fat.fatType.fatOffset entry)
        (encodeEntry fat.fatType entry bytes n) := by
  obtain ⟨bytes, taken, done⟩ := bind_eq_some.mp done
  obtain ⟨n, stored, done⟩ := bind_eq_some.mp done
  obtain ⟨marked, marks, done⟩ := bind_eq_some.mp done
  cases done
  obtain ⟨⟨buffer, -, ty, -⟩, -⟩ := markEntryDirty_spec marks
  exact ⟨bytes, n, taken, stored, ty, buffer⟩

/-- An entry that is written is read back. -/
theorem readFatEntry_writeFatEntry (done : fat.writeFatEntry entry value = some fat') :
    fat'.readFatEntry entry = some value := by
  obtain ⟨bytes, n, taken, stored, ty, buffer⟩ := writeFatEntry_eq done
  have length := length_of_slice? taken
  have encoded : (encodeEntry fat.fatType entry bytes n).length = fat.fatType.window :=
    length_encodeEntry length
  have inside := (slice?_eq_some_iff.mp taken).1
  have same : slice? (splice fat.buffer (fat.fatType.fatOffset entry)
      (encodeEntry fat.fatType entry bytes n)) (fat.fatType.fatOffset entry)
        (encodeEntry fat.fatType entry bytes n).length = _ :=
    slice?_splice_same (by rw [encoded]; exact inside)
  obtain ⟨back, small⟩ := FatEntry.fromU32_toU32 stored
  rw [encoded] at same
  unfold readFatEntry
  rw [ty, buffer, same]
  show some (FatEntry.fromU32 _ _) = _
  rw [decodeEntry_encodeEntry entry length small, back]

/-- The offset of an entry whose product with the width is a `u32`. -/
theorem fatOffset_eq (exact : ty.Exact entry) : ty.fatOffset entry = ty.exactOffset entry := by
  unfold FatType.fatOffset FatType.exactOffset wrap32
  cases ty <;> dsimp only at exact ⊢ <;> rw [Nat.mod_eq_of_lt exact]

/-- The two neighbours in a table of FAT12 that share a byte. -/
theorem decodeEntry_neighbour {buffer : List UInt8} {byte1 byte2 : UInt8}
    (small : n ≤ 0xFF8) (taken : slice? buffer (entry * 3 / 2) 2 = some [byte1, byte2])
    (ne : entry ≠ other) {bytes : List UInt8}
    (read : slice? buffer (other * 3 / 2) 2 = some bytes) :
    ∃ bytes', slice? (splice buffer (entry * 3 / 2)
        (encodeEntry .fat12 entry [byte1, byte2] n)) (other * 3 / 2) 2 = some bytes' ∧
      decodeEntry .fat12 other bytes' = decodeEntry .fat12 other bytes := by
  have length : (encodeEntry .fat12 entry [byte1, byte2] n).length = FatType.fat12.window :=
    length_encodeEntry rfl
  change _ = 2 at length
  have inside : entry * 3 / 2 + (encodeEntry .fat12 entry [byte1, byte2] n).length ≤
      buffer.length := by
    rw [length]
    exact (slice?_eq_some_iff.mp taken).1
  by_cases apart : other * 3 / 2 + 2 ≤ entry * 3 / 2 ∨ entry * 3 / 2 + 2 ≤ other * 3 / 2
  · refine ⟨bytes, ?_, rfl⟩
    rw [slice?_splice_outside inside (by rwa [length]), read]
  · obtain ⟨_, _, same, first, second⟩ := slice?_two.mp taken
    cases same
    obtain ⟨a, b, rfl, low, high⟩ := slice?_two.mp read
    have new := getElem?_splice inside
    rcases Nat.mod_two_eq_zero_or_one entry with even | odd
    · -- the next entry has the upper half of the second byte
      have next : other * 3 / 2 = entry * 3 / 2 + 1 := by omega
      obtain ⟨x, y, encoded, -, half⟩ := encodeEntry_even even byte1 byte2 (by omega : n < 4096)
      have odd' : other % 2 = 1 := by omega
      rw [next] at low high ⊢
      cases second.symm.trans low
      rw [encoded] at new ⊢
      refine ⟨[y, b], slice?_two.mpr ⟨y, b, rfl, ?_, ?_⟩, ?_⟩
      · rw [new, if_pos (by simp), Nat.add_sub_cancel_left]
        rfl
      · rw [new, if_neg (by simp), high]
      · rw [decodeEntry_odd odd', decodeEntry_odd odd']
        omega
    · -- the previous entry has the lower half of the first byte
      have previous : entry * 3 / 2 = other * 3 / 2 + 1 := by omega
      obtain ⟨x, y, encoded, half, -⟩ := encodeEntry_odd odd byte1 byte2 n
      have even' : other % 2 = 0 := by omega
      rw [← previous] at high
      cases first.symm.trans high
      rw [encoded] at new ⊢
      refine ⟨[a, x], slice?_two.mpr ⟨a, x, rfl, ?_, ?_⟩, ?_⟩
      · rw [new, if_neg (by omega), low]
      · rw [← previous, new, if_pos (by simp), Nat.sub_self]
        rfl
      · rw [decodeEntry_even even', decodeEntry_even even']
        omega

/-- A write to one entry leaves the others. -/
theorem readFatEntry_writeFatEntry_other
    (done : fat.writeFatEntry entry value = some fat') (exact : fat.fatType.Exact entry)
    (exact' : fat.fatType.Exact other) (ne : entry ≠ other) :
    fat'.readFatEntry other = fat.readFatEntry other := by
  obtain ⟨bytes, n, taken, stored, ty, buffer⟩ := writeFatEntry_eq done
  have encoded : (encodeEntry fat.fatType entry bytes n).length = fat.fatType.window :=
    length_encodeEntry (length_of_slice? taken)
  have inside := (slice?_eq_some_iff.mp taken).1
  rw [← encoded] at inside
  unfold readFatEntry
  rw [ty, buffer, fatOffset_eq exact, fatOffset_eq exact']
  rw [fatOffset_eq exact] at taken inside
  cases format : fat.fatType with
  | fat12 =>
    rw [format] at taken encoded
    obtain ⟨byte1, byte2, rfl⟩ := List.length_eq_two.mp (length_of_slice? taken)
    rw [format] at stored inside
    have small := (FatEntry.fromU32_toU32 stored).2
    change entry * 3 / 2 + _ ≤ _ at inside
    show (slice? (splice _ (entry * 3 / 2) _) (other * 3 / 2) 2).bind _ =
      (slice? _ (other * 3 / 2) 2).bind _
    cases read : slice? fat.buffer (other * 3 / 2) 2 with
    | some bytes =>
      obtain ⟨bytes', read', same⟩ := decodeEntry_neighbour small taken ne read
      rw [read', Option.bind_some, Option.bind_some, same]
    | none =>
      have outside : slice? (splice fat.buffer (entry * 3 / 2)
          (encodeEntry .fat12 entry [byte1, byte2] n)) (other * 3 / 2) 2 = none := by
        unfold slice? at read ⊢
        rw [length_splice inside]
        split at read
        · cases read
        · exact if_neg ‹_›
      rw [outside]
  | fat16 =>
    rw [format] at inside encoded
    rw [slice?_splice_outside inside]
    show other * 2 + 2 ≤ entry * 2 ∨ entry * 2 + 2 ≤ other * 2
    omega
  | fat32 =>
    rw [format] at inside encoded
    rw [slice?_splice_outside inside]
    show other * 4 + 4 ≤ entry * 4 ∨ entry * 4 + 4 ≤ other * 4
    omega

theorem markSectorDirty_isSome {sector : Nat} (inside : sector / 64 < fat.dirtyBitmap.length) :
    ∃ fat', fat.markSectorDirty sector = some fat' := by
  unfold markSectorDirty
  rw [List.getElem?_eq_getElem inside]
  exact ⟨_, rfl⟩

theorem markEntryDirty_isSome {offset : Nat}
    (first : offset / fat.sectorSize / 64 < fat.dirtyBitmap.length)
    (second : (offset + 1) / fat.sectorSize / 64 < fat.dirtyBitmap.length) :
    ∃ fat', fat.markEntryDirty offset = some fat' := by
  obtain ⟨marked, marks⟩ := markSectorDirty_isSome first
  obtain ⟨-, size, -, bitmap⟩ := markSectorDirty_same marks
  unfold markEntryDirty
  rw [marks, some_bind]
  split
  · apply markSectorDirty_isSome
    rw [size, bitmap]
    exact second
  · exact ⟨_, rfl⟩

end Fat

/-- A value that the format can hold can be written to every entry of the table. -/
theorem writeFatEntry_isSome (shape : TableShape fs) {old : FatEntry}
    (inside : fs.fat.readFatEntry entry = some old) (stored : value.toU32 fs.fat.fatType = some n) :
    ∃ fat, fs.fat.writeFatEntry entry value = some fat := by
  obtain ⟨bytes, taken, -⟩ := bind_eq_some.mp inside
  have upto := (slice?_eq_some_iff.mp taken).1
  have wide : 2 ≤ fs.fat.fatType.window := by cases fs.fat.fatType <;> decide
  have sector : ∀ i, i < fs.fat.buffer.length →
      i / fs.fat.sectorSize / 64 < fs.fat.dirtyBitmap.length := by
    intro i below
    rw [shape.length, mul_comm] at below
    have := (Nat.div_lt_iff_lt_mul fs.bootSector.bytesPerSector_pos).mpr below
    rw [shape.sectorSize, shape.bitmap]
    omega
  have marks : ∀ buffer, ∃ fat, Fat.markEntryDirty { fs.fat with buffer := buffer }
      (fs.fat.fatType.fatOffset entry) = some fat := fun buffer =>
    Fat.markEntryDirty_isSome (sector _ (by omega)) (sector _ (by omega))
  obtain ⟨fat, marked⟩ := marks
    (splice fs.fat.buffer (fs.fat.fatType.fatOffset entry)
      (encodeEntry fs.fat.fatType entry bytes n))
  refine ⟨{ fat with dirty := true }, ?_⟩
  exact bind_eq_some.mpr ⟨bytes, taken, bind_eq_some.mpr ⟨n, stored,
    bind_eq_some.mpr ⟨fat, marked, rfl⟩⟩⟩

/-- The bytes of an entry are inside the table. -/
def Fat.Inside (fat : Fat) (entry : Nat) : Prop :=
  fat.fatType.exactOffset entry + fat.fatType.window ≤ fat.buffer.length

/-- No table is so large that the offset of one of its entries overflows. -/
theorem FatFilesystem.TableShape.exact_of_inside (shape : TableShape fs)
    (inside : fs.fat.Inside entry) : fs.fat.fatType.Exact entry := by
  have fits : fs.fat.buffer.length ≤ 0x1000000 := shape.fits
  unfold Fat.Inside FatType.exactOffset FatType.window at inside
  unfold FatType.Exact
  cases format : fs.fat.fatType <;> rw [format] at inside <;> dsimp only at inside ⊢ <;> omega

/-- The entries that the search counts have all their bytes in the table. -/
theorem FatType.inside_of_lt_entryCount {size : Nat} (below : entry < ty.entryCount size) :
    ty.exactOffset entry + ty.window ≤ size := by
  unfold FatType.entryCount at below
  unfold FatType.exactOffset FatType.window
  cases ty <;> dsimp only at below ⊢ <;> omega

theorem FatFilesystem.TableShape.exact_of_lt (shape : TableShape fs)
    (below : entry < fs.fat.fatType.entryCount fs.fat.buffer.length) : fs.fat.fatType.Exact entry :=
  shape.exact_of_inside (FatType.inside_of_lt_entryCount below)

/-- A value that the format can hold is written to an entry inside the table and read back, and all
other entries are read as before. -/
theorem writeFatEntry_packs {fs : FatFilesystem} (shape : TableShape fs) {entry : Nat}
    (inside : fs.fat.Inside entry) {value : FatEntry} {n : Nat}
    (accepted : value.toU32 fs.fat.fatType = some n) :
    ∃ fat, fs.fat.writeFatEntry entry value = some fat ∧
      fat.readFatEntry entry = some (FatEntry.fromU32 fs.fat.fatType n) ∧
      FatEntry.fromU32 fs.fat.fatType n = value ∧
      ∀ other, other ≠ entry → fs.fat.fatType.Exact other →
        fat.readFatEntry other = fs.fat.readFatEntry other := by
  have exact := shape.exact_of_inside inside
  have back := (FatEntry.fromU32_toU32 accepted).1
  obtain ⟨old, read⟩ : ∃ old, fs.fat.readFatEntry entry = some old := by
    unfold Fat.readFatEntry
    unfold Fat.Inside at inside
    rw [Fat.fatOffset_eq exact, slice?, if_pos inside]
    exact ⟨_, rfl⟩
  obtain ⟨fat, wrote⟩ := writeFatEntry_isSome shape read accepted
  refine ⟨fat, wrote, ?_, back, ?_⟩
  · rw [back]
    exact Fat.readFatEntry_writeFatEntry wrote
  · intro other ne exact'
    exact Fat.readFatEntry_writeFatEntry_other wrote exact exact' ne.symm

/-- The entry 3 of an empty table of FAT12 is linked to the cluster 4. -/
theorem writeFatEntry_packs_blankMounted :
    ∃ fat, blankMounted.fat.writeFatEntry 3 (.next 4) = some fat ∧
      fat.readFatEntry 3 = some (FatEntry.fromU32 .fat12 4) ∧
      FatEntry.fromU32 .fat12 4 = .next 4 ∧
      ∀ other, other ≠ 3 → FatType.fat12.Exact other →
        fat.readFatEntry other = blankMounted.fat.readFatEntry other :=
  writeFatEntry_packs (TableCall.mount_marked mount_blankBoot).1 (show _ ≤ _ by decide +kernel) rfl

end Emerald.Fs
