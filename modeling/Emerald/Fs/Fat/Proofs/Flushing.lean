
import Emerald.Fs.Fat.Proofs.FaultyAccesses
import Emerald.Fs.Fat.Proofs.Accesses

/-!
# Flushing without disk errors

On a disk that fails no access each operation on sectors is an update of the bytes of the disk.
Releasing a dirty cluster writes the table, the size in the directory entry of the file and the
sectors that the dirty range touches.
-/

namespace Emerald.Fs

open MemoryManagement
open FatFilesystem

variable {inode : FileNode} {cluster : Nat} {range : Nat × Nat} {entry : ClusterCacheEntry}

section
variable {fs : FatFilesystem}

theorem orPanic_ok {α : Type} {value : Option α} {a : α} (found : value = some a) :
    orPanic value fs = .ok a fs := by
  rw [found]
  rfl

theorem assertThat_ok {condition : Bool} (holds : condition = true) :
    assertThat condition fs = .ok () fs := by
  rw [holds]
  rfl

/-! ## The table -/

/-- One access for each sector of the table. -/
theorem accesses_writeFatSectors (shape : TableShape fs) {sectors : List Nat}
    (inside : ∀ sector ∈ sectors, sector < fs.bootSector.fatsSizeInSectors) :
    ∃ t, MakesAccesses (writeFatSectors sectors) fs sectors.length () t := by
  induction sectors generalizing fs with
  | nil => exact ⟨fs, accesses_pure ()⟩
  | cons sector rest ih =>
    obtain ⟨here, later⟩ := List.forall_mem_cons.mp inside
    have area := Nat.mul_le_mul_right fs.bootSector.bytesPerSector (Nat.succ_le_of_lt here)
    rw [Nat.succ_mul, mul_comm fs.bootSector.fatsSizeInSectors, ← shape.length] at area
    have fits := shape.fits
    have taken : fs.fat.sectorData sector = some
        ((fs.fat.buffer.drop (sector * fs.bootSector.bytesPerSector)).take
          fs.bootSector.bytesPerSector) := by
      unfold Fat.sectorData wrap32
      rw [shape.sectorSize, Nat.mod_eq_of_lt (by unfold kernelHeapSize at fits; omega)]
      exact slice?_eq_some_iff.mpr ⟨area, rfl⟩
    have length := length_of_slice? taken
    rw [shape.sectorSize] at length
    generalize (fs.fat.buffer.drop _).take _ = data at taken length
    obtain ⟨t, rest'⟩ := @ih
      (fs.storeBytes ((fs.bootSector.fatStartSector + sector) * fs.bootSector.bytesPerSector) data)
      ⟨shape.sectorSize, shape.length, shape.bitmap, shape.fits⟩ later
    refine ⟨t, ?_⟩
    rw [List.length_cons, add_comm]
    refine .get (fun _ => rfl) (.after (accesses_orPanic taken) ?_)
    exact .get (fun _ => rfl) (.bind (accesses_writeSector length) rest')

/-- The table in memory: its shape, and marks for every sector that differs from the disk. -/
structure TableOk (fs : FatFilesystem) : Prop where
  shape : TableShape fs
  marked : BytesMarked fs
  bits : BitsInside fs

/-- What a flush of the table leaves: the table is on the disk and nothing else is changed. -/
structure TableFlushed (fs t : FatFilesystem) : Prop where
  bootSector : t.bootSector = fs.bootSector
  startLba : t.startLba = fs.startLba
  clusterCache : t.clusterCache = fs.clusterCache
  healthy : t.disk.faultIn = none
  fat : t.fat = fs.fat.clearDirty
  table : ∀ i, i < fs.fat.buffer.length → fs.fat.buffer[i]? = some (t.fatByteOnDisk i)
  elsewhere : ∀ a, ¬fs.bootSector.InTable a → t.disk.bytes a = fs.disk.bytes a

/-- A flush of the table makes an access for each sector that is marked. -/
theorem accesses_flushFat (healthy : fs.disk.faultIn = none) (table : TableOk fs) :
    ∃ t, MakesAccesses flushFat fs (fs.fat.dirtySectors.getD []).length () t ∧
      TableFlushed fs t := by
  have inside : ∀ sector ∈ fs.fat.dirtySectors.getD [],
      sector < fs.bootSector.fatsSizeInSectors := by
    cases dirty : fs.fat.dirtySectors with
    | none => simp
    | some sectors =>
      intro sector mem
      exact table.bits _ ((Fat.mem_dirtySectors table.shape.words dirty).mp mem).2
  obtain ⟨t, written⟩ := accesses_writeFatSectors table.shape inside
  have accesses : MakesAccesses flushFat fs _ () _ :=
    .get (fun _ => rfl) (.before written (accesses_modify fun _ => rfl))
  have ran := accesses.healthy healthy
  obtain ⟨u, flushed, same, stored⟩ := (flushFat_meets table.shape table.marked).of_ok ran
  refine ⟨_, accesses.toHealthy, ?_⟩
  have kept : u.disk.faultIn = none := (congrArg (fun fs => fs.disk.faultIn) same).symm
  rw [same]
  refine ⟨flushed.bootSector, flushed.startLba, flushed.clusterCache, kept, ?_, stored, ?_⟩
  · show u.fat.clearDirty = _
    rw [flushed.fat]
  · intro a notTable
    apply flushed.outside
    unfold FatBootSector.InTable at notTable
    rw [table.shape.length]
    omega

/-! ## The directory entry and the cluster -/

/-- The size of a file reaches its entry with one access, and another one if the size differs. -/
def FatFilesystem.resizeAccesses (fs : FatFilesystem) (inode : FileNode) (size : Nat) : Nat :=
  if fs.dirEntry inode ≠ setFileSizeField size (fs.dirEntry inode) then 2 else 1

/-- Updating the size writes the four bytes of its field. -/
theorem accesses_updateDirectoryEntry (ok : DirEntryOk fs inode) (size : Nat) :
    MakesAccesses (updateDirectoryEntry inode (setFileSizeField size)) fs
      (fs.resizeAccesses inode size) ()
      (fs.storeBytes (fs.bootSector.entryAddr inode + 28) (toLE 4 size)) := by
  have inside := ok.inside
  have read := @accesses_readSectorsNoCache fs 1 (wrap32 inode.parentDirSector) Nat.one_ne_zero
    fs.bootSector.sector_fits
  generalize held : readBytes fs.disk.bytes (wrap32 inode.parentDirSector *
    fs.bootSector.bytesPerSector) (fs.bootSector.bytesPerSector * 1) = sector at read
  have whole : sector.length = fs.bootSector.bytesPerSector := by
    rw [← held, length_readBytes, Nat.mul_one]
  have taken : slice? sector (inode.parentDirIndex * directoryEntrySize) directoryEntrySize =
      some (fs.dirEntry inode) := by
    rw [← held]
    exact slice?_readBytes _ (by omega)
  have length : (fs.dirEntry inode).length = directoryEntrySize := length_readBytes ..
  have field : 28 + (toLE 4 size).length ≤ (fs.dirEntry inode).length := by
    rw [length, length_toLE]
    decide
  have used : MakesAccesses (assertThat (entryState (fs.dirEntry inode) = .used)) fs 0 () fs :=
    accesses_assertThat (decide_eq_true ok.used)
  have normal : MakesAccesses (assertThat (!isLong (fs.dirEntry inode))) fs 0 () fs :=
    accesses_assertThat (by rw [ok.normal]; rfl)
  unfold updateDirectoryEntry resizeAccesses
  by_cases differs : fs.dirEntry inode ≠ setFileSizeField size (fs.dirEntry inode)
  · rw [if_pos differs]
    refine .bind (n := 1) read (.after (accesses_orPanic taken) (.after used (.after normal ?_)))
    rw [if_pos differs]
    have stored : fs.storeBytes (fs.bootSector.entryAddr inode + 28) (toLE 4 size) =
        fs.storeBytes (wrap32 inode.parentDirSector * fs.bootSector.bytesPerSector)
          (splice sector (inode.parentDirIndex * directoryEntrySize)
            (setFileSizeField size (fs.dirEntry inode))) := by
      unfold storeBytes setFileSizeField
      rw [splice_splice (by exact taken) field, ← held,
        writeBytes_splice _ (by rw [length_toLE]; unfold directoryEntrySize at inside ⊢; omega)]
      rfl
    rw [stored]
    apply accesses_writeSector
    unfold setFileSizeField
    rw [length_splice (by rw [length_splice field]; omega), whole]
  · rw [if_neg differs]
    refine .before read (.after (accesses_orPanic taken) (.after used (.after normal ?_)))
    rw [if_neg differs]
    have same := not_not.mp differs
    have bytes : ∀ i, i < (toLE 4 size).length →
        (toLE 4 size)[i]? = some (fs.disk.bytes (fs.bootSector.entryAddr inode + 28 + i)) := by
      intro i below
      have here := congrArg (fun entry => entry[28 + i]?) same
      unfold setFileSizeField at here
      rw [getElem?_splice field, if_pos (by omega), Nat.add_sub_cancel_left] at here
      rw [← here]
      unfold dirEntry
      rw [getElem?_readBytes _ _ (by omega), Nat.add_assoc]
    unfold storeBytes
    rw [writeBytes_eq_self bytes]
    exact accesses_pure ()

/-- The sectors that a dirty range touches, as offsets in the cluster. -/
theorem dirtySpan {b : FatBootSector} {start stop : Nat} (ordered : start < stop)
    (inside : stop ≤ b.bytesPerCluster) :
    alignDown start b.bytesPerSector < alignUp stop b.bytesPerSector ∧
      alignUp stop b.bytesPerSector ≤ b.bytesPerCluster := by
  have pos := b.bytesPerSector_pos
  have low := alignDown_le start b.bytesPerSector
  have high := le_alignUp stop pos
  exact ⟨by omega, alignUp_le pos (dvd_mul_left ..) inside⟩

/-- Flushing a dirty range writes its sectors of the cluster. -/
theorem accesses_flushClusterDirtyRange (number : fs.bootSector.DataCluster cluster)
    {data : List UInt8} (length : data.length = fs.bootSector.bytesPerCluster)
    (ordered : range.1 < range.2) (inside : range.2 ≤ fs.bootSector.bytesPerCluster) :
    MakesAccesses (flushClusterDirtyRange data cluster range) fs 1 ()
      (fs.storeBytes (fs.bootSector.clusterAddr cluster +
          alignDown range.1 fs.bootSector.bytesPerSector)
        ((data.drop (alignDown range.1 fs.bootSector.bytesPerSector)).take
          (alignUp range.2 fs.bootSector.bytesPerSector -
            alignDown range.1 fs.bootSector.bytesPerSector))) := by
  obtain ⟨nonempty, below⟩ := dirtySpan ordered inside
  have taken : slice? data (alignDown range.1 fs.bootSector.bytesPerSector)
      (alignUp range.2 fs.bootSector.bytesPerSector -
        alignDown range.1 fs.bootSector.bytesPerSector) = some _ :=
    slice?_eq_some_iff.mpr ⟨by omega, rfl⟩
  refine .get (fun _ => rfl) ?_
  refine .after (accesses_assertThat (decide_eq_true (by omega)))
    (.after (accesses_assertThat (decide_eq_true below))
      (.after (accesses_assertThat (decide_eq_true nonempty)) (.after (accesses_orPanic taken) ?_)))
  have lowAligned := dvd_alignDown range.1 fs.bootSector.bytesPerSector
  have highAligned := dvd_alignUp range.2 fs.bootSector.bytesPerSector
  generalize alignDown range.1 fs.bootSector.bytesPerSector = low at *
  generalize alignUp range.2 fs.bootSector.bytesPerSector = high at *
  -- the first sector is one of the cluster, so its number does not wrap around
  have sector : wrap32 (fs.bootSector.firstSectorOfCluster cluster +
      low / fs.bootSector.bytesPerSector) =
        fs.bootSector.firstSectorOfCluster cluster + low / fs.bootSector.bytesPerSector := by
    have here : low / fs.bootSector.bytesPerSector < fs.bootSector.sectorsPerCluster :=
      (Nat.div_lt_iff_lt_mul fs.bootSector.bytesPerSector_pos).mpr (by
        unfold FatBootSector.bytesPerCluster at below
        omega)
    have step : (cluster - 1) * fs.bootSector.sectorsPerCluster =
        (cluster - 2) * fs.bootSector.sectorsPerCluster + fs.bootSector.sectorsPerCluster := by
      rw [← Nat.succ_mul]
      congr 1
      have := number.two_le
      omega
    have last := number.inside
    unfold wrap32
    rw [number.firstSector, Nat.mod_eq_of_lt (by omega)]
  have size : ((data.drop low).take (high - low)).length = high - low := by
    rw [List.length_take, List.length_drop]
    omega
  have whole : (high - low) % fs.bootSector.bytesPerSector = 0 :=
    Nat.mod_eq_zero_of_dvd (Nat.dvd_sub highAligned lowAligned)
  have some : (data.drop low).take (high - low) ≠ [] := by
    intro empty
    rw [empty, List.length_nil] at size
    omega
  rw [sector, show fs.bootSector.clusterAddr cluster + low =
    (fs.bootSector.firstSectorOfCluster cluster + low / fs.bootSector.bytesPerSector) *
      fs.bootSector.bytesPerSector by rw [add_mul, Nat.div_mul_cancel lowAligned]; rfl]
  exact accesses_writeSectors some (by rw [size]; exact whole)

/-- What a flush for a file leaves on the disk: the table, the size of the file and the cluster. -/
structure FileFlushed (fs : FatFilesystem) (inode : FileNode) (cluster : Nat) (data : List UInt8)
    (t : FatFilesystem) : Prop where
  bootSector : t.bootSector = fs.bootSector
  startLba : t.startLba = fs.startLba
  clusterCache : t.clusterCache = fs.clusterCache
  healthy : t.disk.faultIn = none
  fat : t.fat = fs.fat.clearDirty
  table : ∀ i, i < fs.fat.buffer.length → fs.fat.buffer[i]? = some (t.fatByteOnDisk i)
  size : readBytes t.disk.bytes (fs.bootSector.entryAddr inode + 28) 4 = toLE 4 inode.size
  stored : ∀ offset, offset < fs.bootSector.bytesPerCluster →
    data[offset]? = some (t.clusterByteOnDisk cluster offset)
  elsewhere : ∀ a, ¬fs.bootSector.InTable a → ¬fs.bootSector.InSizeField inode a →
    ¬fs.bootSector.InCluster cluster a → t.disk.bytes a = fs.disk.bytes a

/-- The directory entry of a file lies outside the table and outside a cluster. -/
structure EntryApart (b : FatBootSector) (inode : FileNode) (cluster : Nat) : Prop where
  table : ∀ a, b.InEntry inode a → ¬b.InTable a
  cluster : ∀ a, b.InEntry inode a → ¬b.InCluster cluster a

/-- The size and the sectors of the dirty range, stored after the table. -/
theorem TableFlushed.fileFlushed {t : FatFilesystem} (flushed : TableFlushed fs t)
    (shape : TableShape fs) (apart : EntryApart fs.bootSector inode cluster)
    (ok : EntryOk fs cluster entry) (dirty : entry.dirtyRange = some range) :
    FileFlushed fs inode cluster entry.data
      ((t.storeBytes (fs.bootSector.entryAddr inode + 28) (toLE 4 inode.size)).storeBytes
        (fs.bootSector.clusterAddr cluster + alignDown range.1 fs.bootSector.bytesPerSector)
        ((entry.data.drop (alignDown range.1 fs.bootSector.bytesPerSector)).take
          (alignUp range.2 fs.bootSector.bytesPerSector -
            alignDown range.1 fs.bootSector.bytesPerSector))) := by
  obtain ⟨ordered, below⟩ := ok.range range dirty
  obtain ⟨span, upto⟩ := dirtySpan ordered below
  have lower := alignDown_le range.1 fs.bootSector.bytesPerSector
  have upper := le_alignUp range.2 fs.bootSector.bytesPerSector_pos
  generalize alignDown range.1 fs.bootSector.bytesPerSector = low at *
  generalize alignUp range.2 fs.bootSector.bytesPerSector = high at *
  have length := ok.length
  have size : ((entry.data.drop low).take (high - low)).length = high - low := by
    rw [List.length_take, List.length_drop]
    omega
  generalize stored : (entry.data.drop low).take (high - low) = part at *
  -- the two writes touch the size field and the cluster only
  have elsewhere : ∀ a, ¬fs.bootSector.InSizeField inode a → ¬fs.bootSector.InCluster cluster a →
      writeBytes (writeBytes t.disk.bytes (fs.bootSector.entryAddr inode + 28)
        (toLE 4 inode.size)) (fs.bootSector.clusterAddr cluster + low) part a = t.disk.bytes a := by
    intro a notSize notCluster
    unfold FatBootSector.InSizeField at notSize
    unfold FatBootSector.InCluster at notCluster
    rw [writeBytes_outside _ (by omega), writeBytes_outside _ (by rw [length_toLE]; omega)]
  constructor
  case bootSector => rw [storeBytes_bootSector, storeBytes_bootSector, flushed.bootSector]
  case startLba => rw [storeBytes_startLba, storeBytes_startLba, flushed.startLba]
  case clusterCache => rw [storeBytes_clusterCache, storeBytes_clusterCache, flushed.clusterCache]
  case healthy => rw [storeBytes_faultIn, storeBytes_faultIn, flushed.healthy]
  case fat => rw [storeBytes_fat, storeBytes_fat, flushed.fat]
  case table =>
    intro i inside
    have here : fs.bootSector.InTable
        (fs.bootSector.fatStartSector * fs.bootSector.bytesPerSector + i) := by
      rw [shape.length] at inside
      exact ⟨by omega, by omega⟩
    have same := elsewhere _ (fun field => apart.table _ field.inEntry here)
      (fun within => ok.data.not_inTable within here)
    rw [flushed.table i inside]
    unfold fatByteOnDisk
    rw [storeBytes_bootSector, storeBytes_bootSector, storeBytes_bytes, storeBytes_bytes,
      flushed.bootSector, same]
  case size =>
    have field : ∀ a, fs.bootSector.entryAddr inode + 28 ≤ a →
        a < fs.bootSector.entryAddr inode + 28 + 4 → ¬fs.bootSector.InCluster cluster a := by
      intro a above under
      have here : fs.bootSector.InSizeField inode a := ⟨above, by omega⟩
      exact apart.cluster a here.inEntry
    calc readBytes _ (fs.bootSector.entryAddr inode + 28) 4
        = readBytes (writeBytes t.disk.bytes (fs.bootSector.entryAddr inode + 28)
            (toLE 4 inode.size)) (fs.bootSector.entryAddr inode + 28) 4 := by
          refine readBytes_congr fun a above under => writeBytes_outside _ ?_
          have notHere := field a above under
          unfold FatBootSector.InCluster at notHere
          omega
      _ = toLE 4 inode.size := by
          have read := readBytes_writeBytes_same t.disk.bytes
            (fs.bootSector.entryAddr inode + 28) (toLE 4 inode.size)
          rwa [length_toLE] at read
  case stored =>
    intro offset inside
    have within : fs.bootSector.InCluster cluster (fs.bootSector.clusterAddr cluster + offset) :=
      FatBootSector.inCluster_add inside
    unfold clusterByteOnDisk
    rw [storeBytes_bootSector, storeBytes_bootSector, storeBytes_bytes, storeBytes_bytes,
      flushed.bootSector]
    by_cases touched : low ≤ offset ∧ offset < high
    · obtain ⟨i, rfl⟩ := Nat.exists_eq_add_of_le touched.1
      rw [← add_assoc, writeBytes_inside _ (by omega), ← stored,
        List.getElem?_take_of_lt (by omega), List.getElem?_drop]
    · have notSize :
          ¬ fs.bootSector.InSizeField inode (fs.bootSector.clusterAddr cluster + offset) :=
        fun field => apart.cluster _ field.inEntry within
      unfold FatBootSector.InSizeField at notSize
      rw [writeBytes_outside _ (by omega), writeBytes_outside _ (by rw [length_toLE]; omega),
        flushed.elsewhere _ (ok.data.not_inTable within)]
      refine ok.clean offset inside fun other dirtyOther => ?_
      cases dirty.symm.trans dirtyOther
      omega
  case elsewhere =>
    intro a notTable notSize notCluster
    rw [storeBytes_bytes, storeBytes_bytes, elsewhere a notSize notCluster,
      flushed.elsewhere a notTable]

/-- The accesses of a flush for a file: the marked sectors of the table, the entry and the data. -/
def FatFilesystem.flushAccesses (fs : FatFilesystem) (inode : FileNode) : Nat :=
  (fs.fat.dirtySectors.getD []).length + (fs.resizeAccesses inode inode.size + 1)

section
variable (healthy : fs.disk.faultIn = none) (table : TableOk fs) (node : DirEntryOk fs inode)
  (apart : EntryApart fs.bootSector inode cluster) (ok : EntryOk fs cluster entry)
  (dirty : entry.dirtyRange = some range)
include healthy table node apart ok dirty

theorem accesses_flushClusterDirtyRangeFile :
    ∃ t, MakesAccesses (flushClusterDirtyRangeFile inode entry.data cluster range) fs
      (fs.flushAccesses inode) () t ∧ FileFlushed fs inode cluster entry.data t := by
  obtain ⟨ordered, below⟩ := ok.range range dirty
  obtain ⟨t, first, flushed⟩ := accesses_flushFat healthy table
  have boot := flushed.bootSector
  have entrySame : t.dirEntry inode = fs.dirEntry inode := dirEntry_congr boot fun a here =>
    flushed.elsewhere a (apart.table a here)
  have second := accesses_updateDirectoryEntry (node.congr boot entrySame) inode.size
  rw [show t.resizeAccesses inode inode.size = fs.resizeAccesses inode inode.size by
    unfold resizeAccesses; rw [entrySame], boot] at second
  generalize resized : t.storeBytes (fs.bootSector.entryAddr inode + 28) (toLE 4 inode.size) = u
    at second
  have bootU : u.bootSector = fs.bootSector := by rw [← resized, storeBytes_bootSector, boot]
  have third := accesses_flushClusterDirtyRange (bootU ▸ ok.data) (bootU ▸ ok.length) ordered
    (bootU ▸ below)
  rw [bootU] at third
  refine ⟨_, first.bind (second.bind third), ?_⟩
  rw [← resized]
  exact flushed.fileFlushed table.shape apart ok dirty

theorem flushClusterDirtyRangeFile_healthy :
    Returns (flushClusterDirtyRangeFile inode entry.data cluster range) fs fun _ t =>
      FileFlushed fs inode cluster entry.data t := by
  obtain ⟨t, accesses, flushed⟩ :=
    accesses_flushClusterDirtyRangeFile healthy table node apart ok dirty
  have ran := accesses.healthy healthy
  rw [withFaultIn_healthy flushed.healthy] at ran
  exact returns_of_ok ran flushed

end

end

end Emerald.Fs
