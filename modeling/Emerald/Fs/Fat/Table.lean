
import Emerald.Misc.Bytes
import Emerald.Fs.Node

/-!
# The file allocation table

`FatEntry` and `Fat` of `kernel/src/fs/fat.rs`: the entries of the table in their three formats
and the buffer that holds all copies of the table, with a bitmap of the sectors that were written
since the last flush. `none` is a panic. `u32` arithmetic is taken modulo `2 ^ 32` where it can
leave that range.
-/

namespace Emerald.Fs

/-- A `u32`. -/
def wrap32 (n : Nat) : Nat := n % 2 ^ 32

/-- `FatType`. -/
inductive FatType
  | fat12
  | fat16
  | fat32
  deriving DecidableEq

namespace FatType

/-- The lowest value that marks the end of a chain; the one below it marks a bad cluster. -/
def endOfChain : FatType → Nat
  | fat12 => 0xFF8
  | fat16 => 0xFFF8
  | fat32 => 0x0FFFFFF8

/-- The number of bytes an entry is read from: an entry of FAT12 is one and a half of them. -/
def window : FatType → Nat
  | fat12 => 2
  | fat16 => 2
  | fat32 => 4

/-- The offset in the table of the first byte of an entry. -/
def fatOffset (ty : FatType) (entry : Nat) : Nat :=
  match ty with
  | fat12 => wrap32 (entry * 3) / 2
  | fat16 => wrap32 (entry * 2)
  | fat32 => wrap32 (entry * 4)

/-- The number of entries in a table of this many bytes. -/
def entryCount (ty : FatType) (fatSize : Nat) : Nat :=
  match ty with
  | fat12 => fatSize * 2 / 3
  | fat16 => fatSize / 2
  | fat32 => fatSize / 4

end FatType

/-- `FatEntry`. -/
inductive FatEntry
  | free
  | next (cluster : Nat)
  | endOfChain
  | bad
  | reserved
  deriving DecidableEq

/-- `FatEntry::from_u32`. -/
def FatEntry.fromU32 (ty : FatType) (entry : Nat) : FatEntry :=
  if entry = 0 then free
  else if ty.endOfChain ≤ entry then endOfChain
  else if entry = ty.endOfChain - 1 then bad
  else if 2 ≤ entry ∧ entry ≤ ty.endOfChain - 2 then next entry
  else reserved

/-- `FatEntry::to_u32`. -/
def FatEntry.toU32 (ty : FatType) : FatEntry → Option Nat
  | free => some 0
  | endOfChain => some ty.endOfChain
  | bad => some (ty.endOfChain - 1)
  | next entry => if 2 ≤ entry ∧ entry ≤ ty.endOfChain - 2 then some entry else none
  | reserved => none

/-- `Fat`. -/
structure Fat where
  buffer : List UInt8
  sectorSize : Nat
  fatType : FatType
  dirty : Bool
  dirtyBitmap : List (BitVec 64)
  deriving DecidableEq

/-- The value of an entry in the bytes it is read from. -/
def decodeEntry (ty : FatType) (entry : Nat) (bytes : List UInt8) : Nat :=
  match ty, bytes with
  | .fat12, [byte1, byte2] =>
    if entry &&& 1 = 1 then (byte2.toNat <<< 4) ||| (byte1.toNat >>> 4)
    else ((byte2.toNat &&& 0xF) <<< 8) ||| byte1.toNat
  | .fat12, _ => 0
  | .fat16, bytes => fromLE bytes
  | .fat32, bytes => fromLE bytes &&& 0x0FFFFFFF

/-- The bytes of an entry with its value replaced. An entry of FAT12 leaves half of one byte to
its neighbour. -/
def encodeEntry (ty : FatType) (entry : Nat) (bytes : List UInt8) (new : Nat) : List UInt8 :=
  match ty, bytes with
  | .fat12, [byte1, byte2] =>
    if entry &&& 1 = 1 then
      [(byte1 &&& (0x0F : UInt8)) ||| UInt8.ofNat (new <<< 4), UInt8.ofNat (new >>> 4)]
    else [UInt8.ofNat new, (byte2 &&& (0xF0 : UInt8)) ||| UInt8.ofNat (new >>> 8)]
  | .fat12, bytes => bytes
  | .fat16, _ => toLE 2 new
  | .fat32, _ => toLE 4 new

namespace Fat
variable (fat : Fat)

/-- `read_fat_entry`. -/
def readFatEntry (entry : Nat) : Option FatEntry := do
  let bytes ← slice? fat.buffer (fat.fatType.fatOffset entry) fat.fatType.window
  some (FatEntry.fromU32 fat.fatType (decodeEntry fat.fatType entry bytes))

/-- `mark_sector_dirty`. -/
def markSectorDirty (sector : Nat) : Option Fat := do
  let word ← fat.dirtyBitmap[sector / 64]?
  some { fat with
    dirtyBitmap := fat.dirtyBitmap.set (sector / 64) (word ||| (1#64 <<< (sector % 64))) }

/-- The marks of `write_fat_entry`: an entry of FAT12 can cross a sector boundary. -/
def markEntryDirty (offset : Nat) : Option Fat := do
  let fat ← fat.markSectorDirty (offset / fat.sectorSize)
  if fat.fatType = .fat12 then fat.markSectorDirty ((offset + 1) / fat.sectorSize) else some fat

/-- `write_fat_entry`. -/
def writeFatEntry (entry : Nat) (fatEntry : FatEntry) : Option Fat := do
  let offset := fat.fatType.fatOffset entry
  let bytes ← slice? fat.buffer offset fat.fatType.window
  let new ← fatEntry.toU32 fat.fatType
  let buffer := splice fat.buffer offset (encodeEntry fat.fatType entry bytes new)
  let fat ← { fat with buffer := buffer }.markEntryDirty offset
  some { fat with dirty := true }

/-- The iterator over the bits of the word with the given index: each turn looks at the lowest
bit and shifts it out. -/
def dirtyBits (index : Nat) : Nat → BitVec 64 → Nat → List Nat
  | 0, _, _ => []
  | fuel + 1, dirty, bit =>
    if dirty = 0 then []
    else if dirty &&& 1 ≠ 0 then
      wrap32 (index * 64 + bit) :: dirtyBits index fuel (dirty >>> 1) (bit + 1)
    else dirtyBits index fuel (dirty >>> 1) (bit + 1)

/-- `dirty_sectors`, the indices. -/
def dirtySectors : Option (List Nat) :=
  if fat.dirty then
    some (fat.dirtyBitmap.zipIdx.flatMap fun (word, index) => dirtyBits index 64 word 0)
  else none

/-- The data that `dirty_sectors` gives with an index. -/
def sectorData (sector : Nat) : Option (List UInt8) :=
  slice? fat.buffer (wrap32 (sector * fat.sectorSize)) fat.sectorSize

/-- `clear_dirty`. -/
def clearDirty : Fat :=
  if fat.dirty then
    { fat with dirty := false, dirtyBitmap := fat.dirtyBitmap.map fun _ => 0 }
  else fat

/-- `find_free_cluster`: the search runs over every copy of the table. -/
def findFreeCluster : Option Nat :=
  (List.range' 2 (fat.fatType.entryCount fat.buffer.length - 2)).find? fun i =>
    fat.readFatEntry i = some .free

/-- `next_cluster`. -/
def nextCluster (cluster : Nat) : Option (Except FatError (Option Nat)) := do
  match ← fat.readFatEntry cluster with
  | .next cluster => some (.ok (some cluster))
  | .endOfChain => some (.ok none)
  | .bad => some (.error .unexpectedFatEntry)
  | .reserved => some (.error .unexpectedFatEntry)
  | .free => some (.error .unexpectedFatEntry)

end Fat

end Emerald.Fs
