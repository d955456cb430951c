
import Emerald.Fs.Fat.Proofs.Flushing

/-!
# What the open files see

The open files see a cluster through the cache, and through the disk when it is not cached. Locking
and releasing clusters on a disk without errors moves bytes between the two and changes none of
them. Besides the clusters of the files a release can write the table and the size in the directory
entry of the file it is done for.
-/

namespace Emerald.Fs

open MemoryManagement
open FatFilesystem

variable {field c : Nat}

/-- The table on the disk is the one in memory. -/
def TableOnDisk (fs : FatFilesystem) : Prop :=
  ∀ i, i < fs.fat.buffer.length → fs.fat.buffer[i]? = some (fs.fatByteOnDisk i)

/-- The bytes of `file_size` in the directory entry of a file. -/
def FatFilesystem.sizeField (fs : FatFilesystem) (inode : FileNode) : List UInt8 :=
  readBytes fs.disk.bytes (fs.bootSector.entryAddr inode + 28) 4

/-- The disk has the table and the size of the file. -/
structure Settled (fs : FatFilesystem) (inode : FileNode) : Prop where
  table : TableOnDisk fs
  size : fs.sizeField inode = toLE 4 inode.size

/-- What the disk lacks of the table and of the size of a file comes with the next flush of a
cluster that is dirty now. -/
def Owed (fs : FatFilesystem) (inode : FileNode) : Prop :=
  Settled fs inode ∨
    ∃ c entry, SortedMap.get? fs.clusterCache c = some entry ∧ entry.dirtyRange ≠ none

/-- A volume in use, on a disk without errors; `files` are the clusters that belong to files. -/
structure VolumeOk (files : Nat → Prop) (fs : FatFilesystem) : Prop where
  healthy : fs.disk.faultIn = none
  table : TableOk fs
  data : ∀ c, files c → fs.bootSector.DataCluster c
  cache : CacheOk fs
  cached : ∀ c entry, SortedMap.get? fs.clusterCache c = some entry → files c

/-- A node whose directory entry is in order and lies outside the table and the clusters of the
files. -/
structure NodeOk (files : Nat → Prop) (fs : FatFilesystem) (inode : FileNode) : Prop where
  entry : DirEntryOk fs inode
  outside : ∀ a, fs.bootSector.InEntry inode a → ¬fs.bootSector.InTable a
  apart : ∀ c, files c → ∀ a, fs.bootSector.InEntry inode a → ¬fs.bootSector.InCluster c a

/-- What an operation for a file keeps: it changes the data of some clusters, and on the disk the
table and the size of the file. -/
structure Kept (files changed : Nat → Prop) (fs : FatFilesystem) (inode : FileNode)
    (t : FatFilesystem) : Prop where
  volume : VolumeOk files t
  bootSector : t.bootSector = fs.bootSector
  startLba : t.startLba = fs.startLba
  buffer : t.fat.buffer = fs.fat.buffer
  fatType : t.fat.fatType = fs.fat.fatType
  table : TableOnDisk fs → TableOnDisk t
  size : t.sizeField inode = fs.sizeField inode ∨ t.sizeField inode = toLE 4 inode.size
  owed : Owed fs inode → Owed t inode
  view : ∀ c, files c → ¬changed c → ∀ offset, offset < fs.bootSector.bytesPerCluster →
    t.clusterByte c offset = fs.clusterByte c offset
  elsewhere : ∀ a, ¬fs.bootSector.InTable a → ¬fs.bootSector.InSizeField inode a →
    (∀ c, files c → ¬fs.bootSector.InCluster c a) → t.disk.bytes a = fs.disk.bytes a

section
variable {files changed : Nat → Prop} {fs t u : FatFilesystem} {inode : FileNode}
variable {entry : ClusterCacheEntry} {cache : ClusterCache} {data : List UInt8}

theorem Kept.refl (volume : VolumeOk files fs) : Kept files changed fs inode fs :=
  ⟨volume, rfl, rfl, rfl, rfl, id, .inl rfl, id, fun _ _ _ _ _ => rfl, fun _ _ _ _ => rfl⟩

theorem Kept.trans (first : Kept files changed fs inode t) (second : Kept files changed t inode u) :
    Kept files changed fs inode u where
  volume := second.volume
  bootSector := second.bootSector.trans first.bootSector
  startLba := second.startLba.trans first.startLba
  buffer := second.buffer.trans first.buffer
  fatType := second.fatType.trans first.fatType
  table := second.table ∘ first.table
  size := by
    rcases second.size with same | written
    · rw [same]
      exact first.size
    · exact .inr written
  owed := second.owed ∘ first.owed
  view := by
    intro c mine unchanged offset below
    rw [second.view c mine unchanged offset (by rwa [first.bootSector])]
    exact first.view c mine unchanged offset below
  elsewhere := by
    intro a notTable notSize notCluster
    rw [← first.elsewhere a notTable notSize notCluster]
    apply second.elsewhere a <;> rwa [first.bootSector]

theorem Kept.mono {more : Nat → Prop} (kept : Kept files changed fs inode t)
    (grows : ∀ c, changed c → more c) : Kept files more fs inode t :=
  ⟨kept.volume, kept.bootSector, kept.startLba, kept.buffer, kept.fatType, kept.table, kept.size,
    kept.owed, fun c mine unchanged => kept.view c mine fun was => unchanged (grows c was),
    kept.elsewhere⟩

/-! ## Directory entries -/

theorem FatBootSector.thirtyTwo_dvd_entryAddr (b : FatBootSector) (inode : FileNode) :
    32 ∣ b.entryAddr inode := by
  have whole : 32 ∣ b.bytesPerSector := by
    have := b.bytesPerSector_eq
    omega
  exact dvd_add (Dvd.dvd.mul_left whole _) (dvd_mul_left ..)

/-- The fields of an entry other than its size are those of no size field. -/
theorem FatBootSector.not_inSizeField (b : FatBootSector) (node inode : FileNode)
    (below : field < 28) : ¬b.InSizeField inode (b.entryAddr node + field) := by
  have first := b.thirtyTwo_dvd_entryAddr node
  have second := b.thirtyTwo_dvd_entryAddr inode
  unfold InSizeField
  omega

theorem getElem?_dirEntry {node : FileNode} (below : field < directoryEntrySize) :
    (fs.dirEntry node)[field]? = some (fs.disk.bytes (fs.bootSector.entryAddr node + field)) :=
  getElem?_readBytes _ _ below

theorem Kept.dirEntry_field (kept : Kept files changed fs inode t) {node : FileNode}
    (ok : NodeOk files fs node) (below : field < 28) :
    (t.dirEntry node)[field]? = (fs.dirEntry node)[field]? := by
  have small : field < directoryEntrySize := by
    unfold directoryEntrySize
    omega
  have here : fs.bootSector.InEntry node (fs.bootSector.entryAddr node + field) :=
    ⟨by omega, by omega⟩
  rw [getElem?_dirEntry small, getElem?_dirEntry small, kept.bootSector,
    kept.elsewhere _ (ok.outside _ here) (fs.bootSector.not_inSizeField node inode below)
      fun c mine => ok.apart c mine _ here]

/-- No operation for a file spoils the directory entry of a file. -/
theorem Kept.node (kept : Kept files changed fs inode t) {node : FileNode}
    (ok : NodeOk files fs node) : NodeOk files t node := by
  have state : (t.dirEntry node).head? = (fs.dirEntry node).head? := by
    rw [List.head?_eq_getElem?]
    exact kept.dirEntry_field ok (by omega)
  have attributes : (t.dirEntry node).getD 11 0 = (fs.dirEntry node).getD 11 0 := by
    rw [List.getD_eq_getElem?_getD, List.getD_eq_getElem?_getD, kept.dirEntry_field ok (by omega)]
  refine ⟨⟨?_, ?_, ?_⟩, ?_, ?_⟩
  · rw [kept.bootSector]
    exact ok.entry.inside
  · unfold entryState
    rw [state]
    exact ok.entry.used
  · unfold isLong
    rw [attributes]
    exact ok.entry.normal
  · rw [kept.bootSector]
    exact ok.outside
  · rw [kept.bootSector]
    exact ok.apart

/-! ## Changes of the cache -/

theorem entryOk_withCache :
    EntryOk { fs with clusterCache := cache } c entry ↔ EntryOk fs c entry :=
  ⟨fun ok => ok.congr rfl fun _ _ => rfl, fun ok => ok.congr rfl fun _ _ => rfl⟩

theorem tableOk_withCache (table : TableOk fs) (cache : ClusterCache) :
    TableOk { fs with clusterCache := cache } :=
  ⟨table.shape.of_same ⟨rfl, rfl, rfl, rfl⟩ rfl, table.marked, table.bits⟩

/-- A change of the cache alone. -/
theorem kept_withCache (volume : VolumeOk files fs)
    (entries : ∀ c entry, SortedMap.get? cache c = some entry → files c ∧ EntryOk fs c entry)
    (view : ∀ c, files c → ¬changed c → ∀ offset, offset < fs.bootSector.bytesPerCluster →
      clusterByte { fs with clusterCache := cache } c offset = fs.clusterByte c offset)
    (owed : Owed fs inode → Owed { fs with clusterCache := cache } inode) :
    Kept files changed fs inode { fs with clusterCache := cache } := by
  refine ⟨⟨volume.healthy, tableOk_withCache volume.table cache, volume.data, ?_, ?_⟩, rfl, rfl,
    rfl, rfl, id, .inl rfl, owed, view, fun _ _ _ _ => rfl⟩
  · intro c entry found
    exact entryOk_withCache.mpr (entries c entry found).2
  · intro c entry found
    exact (entries c entry found).1

theorem clusterByte_insert (c : Nat) (entry : ClusterCacheEntry) (d offset : Nat) :
    clusterByte { fs with clusterCache := fs.clusterCache.insert c entry } d offset =
      if d = c then entry.data.getD offset 0 else fs.clusterByte d offset := by
  unfold clusterByte
  rw [SortedMap.get?_insert]
  by_cases same : d = c
  · rw [if_pos same, if_pos same]
  · rw [if_neg same, if_neg same]
    rfl

/-- A cluster put into the cache, or changed there. -/
theorem kept_insert (volume : VolumeOk files fs) (mine : files c) (ok : EntryOk fs c entry)
    (view : ¬changed c → ∀ offset, offset < fs.bootSector.bytesPerCluster →
      entry.data.getD offset 0 = fs.clusterByte c offset)
    (dirty : ∀ old, SortedMap.get? fs.clusterCache c = some old → old.dirtyRange ≠ none →
      entry.dirtyRange ≠ none) :
    Kept files changed fs inode { fs with clusterCache := fs.clusterCache.insert c entry } := by
  apply kept_withCache volume
  · intro d other found
    rw [SortedMap.get?_insert] at found
    split at found
    · cases found
      subst d
      exact ⟨mine, ok⟩
    · exact ⟨volume.cached d other found, volume.cache d other found⟩
  · intro d mineD unchanged offset below
    rw [clusterByte_insert]
    split
    · subst d
      exact view unchanged offset below
    · rfl
  · rintro (settled | ⟨d, other, found, changes⟩)
    · exact .inl ⟨settled.table, settled.size⟩
    · by_cases same : d = c
      · subst d
        exact .inr ⟨c, entry, SortedMap.get?_insert_self .., dirty other found changes⟩
      · refine .inr ⟨d, other, ?_, changes⟩
        rw [SortedMap.get?_insert, if_neg same]
        exact found

/-- Another number of references to a cached cluster. -/
theorem kept_recount (volume : VolumeOk files fs)
    (found : SortedMap.get? fs.clusterCache c = some entry) {count : Nat} (used : 0 < count) :
    Kept files changed fs inode { fs with
      clusterCache := fs.clusterCache.insert c { entry with referenceCount := count } } := by
  obtain ⟨data, number, -, length, range, clean⟩ := volume.cache c entry found
  have ok : EntryOk fs c { entry with referenceCount := count } :=
    ⟨data, number, used, length, range, clean⟩
  apply kept_insert volume (volume.cached c entry found) ok
  · intro _ offset below
    unfold clusterByte
    rw [found]
  · intro old foundOld changes
    cases found.symm.trans foundOld
    exact changes

/-- Locking a cluster changes no byte that is seen, and the cluster is cached then. -/
theorem lockCluster_keeps (changed : Nat → Prop) (inode : FileNode) (volume : VolumeOk files fs)
    (mine : files c) :
    Returns (lockCluster c) fs fun _ t => Kept files changed fs inode t ∧
      ∃ entry, SortedMap.get? t.clusterCache c = some entry := by
  unfold lockCluster ClusterCache.tryGetClusterLocked
  apply meets_get_bind.mpr
  cases found : SortedMap.get? fs.clusterCache c with
  | some entry =>
    exact ⟨kept_recount volume found (Nat.succ_pos _), _, SortedMap.get?_insert_self ..⟩
  | none =>
    have fits : fs.bootSector.bytesPerSector * fs.bootSector.sectorsPerCluster ≤
        kernelHeapSize := by
      have small := fs.bootSector.bytesPerCluster_le
      unfold FatBootSector.bytesPerCluster at small
      unfold kernelHeapSize
      rw [mul_comm]
      omega
    have length : fs.bootSector.bytesPerSector * fs.bootSector.sectorsPerCluster =
        fs.bootSector.bytesPerCluster := mul_comm ..
    apply Returns.after (readSectorsNoCache_healthy volume.healthy fits)
    rw [length]
    have ok : EntryOk fs c ⟨c, 1, none, readBytes fs.disk.bytes
        (fs.bootSector.firstSectorOfCluster c * fs.bootSector.bytesPerSector)
        fs.bootSector.bytesPerCluster⟩ := by
      refine ⟨volume.data c mine, rfl, Nat.one_pos, length_readBytes .., ?_, ?_⟩
      · rintro range ⟨⟩
      · intro offset below _
        exact getElem?_readBytes _ _ below
    refine ⟨kept_insert volume mine ok ?_ ?_, _, SortedMap.get?_insert_self ..⟩
    · intro _ offset below
      rw [clusterByte_of_absent found, List.getD_eq_getElem?_getD, getElem?_readBytes _ _ below]
      rfl
    · intro old foundOld
      cases found.symm.trans foundOld

/-! ## Releasing a cluster -/

/-- A clean cluster that leaves the cache is still on the disk. -/
theorem kept_erase (volume : VolumeOk files fs)
    (found : SortedMap.get? fs.clusterCache c = some entry) (clean : entry.dirtyRange = none) :
    Kept files changed fs inode { fs with clusterCache := fs.clusterCache.erase c } := by
  have ok := volume.cache c entry found
  have stays : ∀ {d : Nat}, d ≠ c → SortedMap.get? (fs.clusterCache.erase c) d =
      SortedMap.get? fs.clusterCache d := by
    intro d other
    rw [SortedMap.get?_erase, if_neg other]
  apply kept_withCache volume
  · intro d other foundOther
    have stayed := (SortedMap.get?_erase_eq_some.mp foundOther).2
    exact ⟨volume.cached d other stayed, volume.cache d other stayed⟩
  · intro d _ _ offset below
    by_cases same : d = c
    · subst d
      have onDisk := ok.clean offset below (by simp [clean])
      have seen := clusterByte_of_cached found ok below
      rw [clusterByte_of_absent (by rw [SortedMap.get?_erase, if_pos rfl])]
      exact Option.some.inj (onDisk.symm.trans seen)
    · unfold clusterByte
      rw [stays same]
      rfl
  · rintro (settled | ⟨d, other, foundOther, changes⟩)
    · exact .inl ⟨settled.table, settled.size⟩
    · have ne : d ≠ c := by
        rintro rfl
        cases found.symm.trans foundOther
        exact changes clean
      exact .inr ⟨d, other, (stays ne).trans foundOther, changes⟩

theorem FileFlushed.settled (flushed : FileFlushed fs inode c data t) :
    Settled t inode := by
  constructor
  · intro i below
    rw [flushed.fat, fs.fat.clearDirty_same.buffer] at below ⊢
    exact flushed.table i below
  · unfold FatFilesystem.sizeField
    rw [flushed.bootSector]
    exact flushed.size

theorem FileFlushed.tableOk (table : TableOk fs)
    (flushed : FileFlushed fs inode c data t) : TableOk t := by
  refine ⟨table.shape.of_same (flushed.fat ▸ fs.fat.clearDirty_same) flushed.bootSector, ?_, ?_⟩
  · intro i below differs
    exact absurd (flushed.settled.table i below) differs
  · intro sector marked
    rw [flushed.bootSector]
    rw [flushed.fat] at marked
    exact table.bits sector (Fat.isDirtySector_of_clearDirty marked)

/-- A dirty cluster that leaves the cache is on the disk after its flush. -/
theorem kept_flushed (volume : VolumeOk files fs) (node : NodeOk files fs inode)
    (found : SortedMap.get? fs.clusterCache c = some entry) (flushed :
      FileFlushed { fs with clusterCache := fs.clusterCache.erase c } inode c entry.data t) :
    Kept files changed fs inode t := by
  have mine := volume.cached c entry found
  have boot : t.bootSector = fs.bootSector := flushed.bootSector
  have cache : t.clusterCache = fs.clusterCache.erase c := flushed.clusterCache
  -- the clusters of the other files stay as they are on the disk
  have others : ∀ d, files d → d ≠ c → ∀ offset, offset < fs.bootSector.bytesPerCluster →
      t.clusterByteOnDisk d offset = fs.clusterByteOnDisk d offset := by
    intro d mineD other offset below
    have here : fs.bootSector.InCluster d (fs.bootSector.clusterAddr d + offset) :=
      FatBootSector.inCluster_add below
    have data := volume.data d mineD
    unfold clusterByteOnDisk
    rw [boot]
    apply flushed.elsewhere
    · exact data.not_inTable here
    · intro field
      exact node.apart d mineD _ field.inEntry here
    · intro within
      exact other (data.eq_of_inCluster (volume.data c mine) here within)
  constructor
  case volume =>
    refine ⟨flushed.healthy, flushed.tableOk (tableOk_withCache volume.table _), ?_, ?_, ?_⟩
    · rw [boot]
      exact volume.data
    · intro d other foundOther
      rw [cache] at foundOther
      obtain ⟨ne, stayed⟩ := SortedMap.get?_erase_eq_some.mp foundOther
      have mineD := volume.cached d other stayed
      exact (volume.cache d other stayed).congr boot (others d mineD ne)
    · intro d other foundOther
      rw [cache] at foundOther
      exact volume.cached d other (SortedMap.get?_erase_eq_some.mp foundOther).2
  case bootSector => exact boot
  case startLba => exact flushed.startLba
  case buffer => rw [flushed.fat, fs.fat.clearDirty_same.buffer]
  case fatType => rw [flushed.fat, fs.fat.clearDirty_same.fatType]
  case table => exact fun _ => flushed.settled.table
  case size => exact .inr flushed.settled.size
  case owed => exact fun _ => .inl flushed.settled
  case view =>
    intro d mineD _ offset below
    by_cases same : d = c
    · subst d
      have seen := clusterByte_of_cached found (volume.cache c entry found) below
      rw [clusterByte_of_absent (by rw [cache, SortedMap.get?_erase, if_pos rfl])]
      exact Option.some.inj ((flushed.stored offset below).symm.trans seen)
    · unfold clusterByte
      rw [cache, SortedMap.get?_erase, if_neg same, others d mineD same offset below]
  case elsewhere =>
    intro a notTable notSize notCluster
    exact flushed.elsewhere a notTable notSize (notCluster c mine)

theorem releaseCluster_keeps (changed : Nat → Prop) (volume : VolumeOk files fs)
    (node : NodeOk files fs inode) (c : Nat) :
    Returns (releaseCluster inode c) fs fun _ t => Kept files changed fs inode t ∧
      t.clusterCache = (fs.clusterCache.releaseCluster c).2 := by
  apply meets_get_bind.mpr
  apply meets_modify_bind.mpr
  cases found : SortedMap.get? fs.clusterCache c with
  | none =>
    rw [ClusterCache.releaseCluster_of_none found]
    exact ⟨Kept.refl volume, rfl⟩
  | some entry =>
    rw [ClusterCache.releaseCluster_of_some found]
    by_cases last : entry.referenceCount - 1 = 0
    · rw [if_pos last]
      have ok := volume.cache c entry found
      show Returns (flushReleased inode { entry with referenceCount := entry.referenceCount - 1 })
        { fs with clusterCache := fs.clusterCache.erase c } _
      cases dirty : entry.dirtyRange with
      | none => exact ⟨kept_erase volume found dirty, rfl⟩
      | some range =>
        rw [ok.number]
        have entryOk : DirEntryOk { fs with clusterCache := fs.clusterCache.erase c } inode :=
          node.entry.congr rfl rfl
        have healthy : (FatFilesystem.disk
          { fs with clusterCache := fs.clusterCache.erase c }).faultIn = none := volume.healthy
        have mine := volume.cached c entry found
        apply (flushClusterDirtyRangeFile_healthy healthy (tableOk_withCache volume.table _)
          entryOk ⟨node.outside, node.apart c mine⟩ (entryOk_withCache.mpr ok) dirty).mono
        intro _ t flushed
        exact ⟨kept_flushed volume node found flushed, flushed.clusterCache⟩
    · rw [if_neg last]
      exact ⟨kept_recount volume found (by omega), rfl⟩

end

end Emerald.Fs
