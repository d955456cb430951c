
import Emerald.Fs.Fat.Proofs.DirtySectors

/-!
# Where the clusters are

The clusters of a volume follow the copies of the table and the root directory. A cluster that the
`u32` sector numbers reach has its own run of bytes on the disk, and a cached cluster stands for
these bytes: its data are those of the disk except in its dirty range.
-/

namespace Emerald.Fs

variable {cluster : Nat} {inode : FileNode}
variable {fs t : FatFilesystem}

namespace FatBootSector
variable {b : FatBootSector}

theorem bytesPerCluster_pos (b : FatBootSector) : 0 < b.bytesPerCluster :=
  Nat.mul_pos b.sectorsPerCluster_pos b.bytesPerSector_pos

theorem bytesPerSector_le (b : FatBootSector) : b.bytesPerSector ≤ 4096 := by
  have := b.bytesPerSector_eq
  omega

theorem bytesPerCluster_le (b : FatBootSector) : b.bytesPerCluster ≤ 524288 := by
  have few : b.sectorsPerCluster ≤ 128 := by
    have := b.sectorsPerCluster_mem
    simp only [List.mem_cons, List.not_mem_nil, or_false] at this
    omega
  calc b.bytesPerCluster ≤ 128 * 4096 := Nat.mul_le_mul few b.bytesPerSector_le
    _ = 524288 := rfl

/-- The cluster is a data cluster, and its sectors have numbers below `2 ^ 32`. -/
structure DataCluster (b : FatBootSector) (cluster : Nat) : Prop where
  two_le : 2 ≤ cluster
  inside : b.fatStartSector + b.fatsSizeInSectors + b.rootDirSectors +
    (cluster - 1) * b.sectorsPerCluster ≤ 2 ^ 32

instance (b : FatBootSector) : DecidablePred b.DataCluster := fun cluster =>
  decidable_of_iff (2 ≤ cluster ∧ b.fatStartSector + b.fatsSizeInSectors + b.rootDirSectors +
    (cluster - 1) * b.sectorsPerCluster ≤ 2 ^ 32)
    ⟨fun ⟨low, high⟩ => ⟨low, high⟩, fun ⟨low, high⟩ => ⟨low, high⟩⟩

/-- The bytes of the disk from which a cluster is read. -/
def clusterAddr (b : FatBootSector) (cluster : Nat) : Nat :=
  b.firstSectorOfCluster cluster * b.bytesPerSector

theorem DataCluster.firstSector (data : b.DataCluster cluster) :
    b.firstSectorOfCluster cluster = b.fatStartSector + b.fatsSizeInSectors + b.rootDirSectors +
      (cluster - 2) * b.sectorsPerCluster := by
  obtain ⟨low, high⟩ := data
  have step : (cluster - 1) * b.sectorsPerCluster =
      (cluster - 2) * b.sectorsPerCluster + b.sectorsPerCluster := by
    rw [← Nat.succ_mul]
    congr 1
    omega
  have pos := b.sectorsPerCluster_pos
  have number : cluster - 2 ≤ (cluster - 2) * b.sectorsPerCluster :=
    Nat.le_mul_of_pos_right _ pos
  have offset : wrap32 (cluster + 2 ^ 32 - 2) = cluster - 2 := by
    unfold wrap32
    have : cluster + 2 ^ 32 - 2 = (cluster - 2) + 2 ^ 32 := by omega
    rw [this, Nat.add_mod_right, Nat.mod_eq_of_lt (by omega)]
  unfold firstSectorOfCluster dataStartSector rootDirStartSector
  rw [offset]
  unfold wrap32
  rw [Nat.mod_eq_of_lt (b := 2 ^ 32) (a := b.fatStartSector + b.fatsSizeInSectors) (by omega),
    Nat.mod_eq_of_lt (b := 2 ^ 32) (a := _ + b.rootDirSectors) (by omega),
    Nat.mod_eq_of_lt (by omega)]

/-- Two data clusters have no byte in common. -/
theorem DataCluster.apart {c d : Nat} (first : b.DataCluster c) (second : b.DataCluster d)
    (ne : c ≠ d) : b.clusterAddr c + b.bytesPerCluster ≤ b.clusterAddr d ∨
      b.clusterAddr d + b.bytesPerCluster ≤ b.clusterAddr c := by
  have ordered : ∀ {c d : Nat}, b.DataCluster c → b.DataCluster d → c < d →
      b.clusterAddr c + b.bytesPerCluster ≤ b.clusterAddr d := by
    intro c d first second below
    have low := first.two_le
    have step : (c - 2) * b.sectorsPerCluster + b.sectorsPerCluster ≤
        (d - 2) * b.sectorsPerCluster := by
      rw [← Nat.succ_mul]
      exact Nat.mul_le_mul_right _ (by omega)
    unfold clusterAddr bytesPerCluster
    rw [first.firstSector, second.firstSector, ← add_mul]
    exact Nat.mul_le_mul_right _ (by omega)
  rcases Nat.lt_or_gt_of_ne ne with below | above
  · exact .inl (ordered first second below)
  · exact .inr (ordered second first above)

/-- The table lies before the clusters. -/
theorem DataCluster.above_table {c : Nat} (data : b.DataCluster c) :
    b.fatStartSector * b.bytesPerSector + b.bytesPerSector * b.fatsSizeInSectors ≤
      b.clusterAddr c := by
  unfold clusterAddr
  rw [data.firstSector, mul_comm b.bytesPerSector, ← add_mul]
  exact Nat.mul_le_mul_right _ (by omega)

/-- An address of the table. -/
def InTable (b : FatBootSector) (a : Nat) : Prop :=
  b.fatStartSector * b.bytesPerSector ≤ a ∧
    a < b.fatStartSector * b.bytesPerSector + b.bytesPerSector * b.fatsSizeInSectors

/-- An address of a cluster. -/
def InCluster (b : FatBootSector) (cluster a : Nat) : Prop :=
  b.clusterAddr cluster ≤ a ∧ a < b.clusterAddr cluster + b.bytesPerCluster

/-- The address of the directory entry of a file. -/
def entryAddr (b : FatBootSector) (inode : FileNode) : Nat :=
  wrap32 inode.parentDirSector * b.bytesPerSector + inode.parentDirIndex * directoryEntrySize

/-- An address of the directory entry of a file. -/
def InEntry (b : FatBootSector) (inode : FileNode) (a : Nat) : Prop :=
  b.entryAddr inode ≤ a ∧ a < b.entryAddr inode + directoryEntrySize

/-- An address of `file_size` in the directory entry of a file. -/
def InSizeField (b : FatBootSector) (inode : FileNode) (a : Nat) : Prop :=
  b.entryAddr inode + 28 ≤ a ∧ a < b.entryAddr inode + 32

theorem InSizeField.inEntry {a : Nat} (field : b.InSizeField inode a) : b.InEntry inode a := by
  unfold InEntry directoryEntrySize
  unfold InSizeField at field
  omega

theorem inCluster_add {offset : Nat} (below : offset < b.bytesPerCluster) :
    b.InCluster cluster (b.clusterAddr cluster + offset) := ⟨by omega, by omega⟩

theorem DataCluster.eq_of_inCluster {c d a : Nat} (first : b.DataCluster c)
    (second : b.DataCluster d) (inFirst : b.InCluster c a) (inSecond : b.InCluster d a) :
    c = d := by
  by_contra ne
  unfold InCluster at inFirst inSecond
  rcases first.apart second ne with before | after <;> omega

theorem DataCluster.not_inTable {c a : Nat} (data : b.DataCluster c) (inside : b.InCluster c a) :
    ¬b.InTable a := by
  have above := data.above_table
  unfold InCluster at inside
  unfold InTable
  omega

end FatBootSector

namespace FatFilesystem
variable {entry : ClusterCacheEntry}

/-- The filesystem after bytes of the disk are replaced. -/
def storeBytes (fs : FatFilesystem) (addr : Nat) (data : List UInt8) : FatFilesystem :=
  { fs with disk := { fs.disk with bytes := writeBytes fs.disk.bytes addr data } }

section
variable (fs : FatFilesystem) (addr : Nat) (data : List UInt8)

@[simp] theorem storeBytes_bootSector : (fs.storeBytes addr data).bootSector = fs.bootSector := rfl

@[simp] theorem storeBytes_startLba : (fs.storeBytes addr data).startLba = fs.startLba := rfl

@[simp] theorem storeBytes_clusterCache :
    (fs.storeBytes addr data).clusterCache = fs.clusterCache := rfl

@[simp] theorem storeBytes_fat : (fs.storeBytes addr data).fat = fs.fat := rfl

@[simp] theorem storeBytes_faultIn :
    (fs.storeBytes addr data).disk.faultIn = fs.disk.faultIn := rfl

@[simp] theorem storeBytes_bytes :
    (fs.storeBytes addr data).disk.bytes = writeBytes fs.disk.bytes addr data := rfl

end

/-- A byte of a cluster on the disk. -/
def clusterByteOnDisk (fs : FatFilesystem) (cluster offset : Nat) : UInt8 :=
  fs.disk.bytes (fs.bootSector.clusterAddr cluster + offset)

/-- A byte of a cluster as the open files see it: in the cache if it is there. -/
def clusterByte (fs : FatFilesystem) (cluster offset : Nat) : UInt8 :=
  match SortedMap.get? fs.clusterCache cluster with
  | some entry => entry.data.getD offset 0
  | none => fs.clusterByteOnDisk cluster offset

/-- A cached cluster has users and stands for the bytes of the disk, with changes in its dirty range
only. -/
structure EntryOk (fs : FatFilesystem) (cluster : Nat) (entry : ClusterCacheEntry) : Prop where
  data : fs.bootSector.DataCluster cluster
  number : entry.cluster = cluster
  used : 0 < entry.referenceCount
  length : entry.data.length = fs.bootSector.bytesPerCluster
  range : ∀ range, entry.dirtyRange = some range →
    range.1 < range.2 ∧ range.2 ≤ fs.bootSector.bytesPerCluster
  clean : ∀ offset, offset < fs.bootSector.bytesPerCluster →
    (∀ range, entry.dirtyRange = some range → offset < range.1 ∨ range.2 ≤ offset) →
      entry.data[offset]? = some (fs.clusterByteOnDisk cluster offset)

/-- Every cached cluster is in order. -/
def CacheOk (fs : FatFilesystem) : Prop :=
  ∀ cluster entry, SortedMap.get? fs.clusterCache cluster = some entry → EntryOk fs cluster entry

theorem clusterByte_of_cached {offset : Nat}
    (found : SortedMap.get? fs.clusterCache cluster = some entry) (ok : EntryOk fs cluster entry)
    (below : offset < fs.bootSector.bytesPerCluster) :
    entry.data[offset]? = some (fs.clusterByte cluster offset) := by
  have inside : offset < entry.data.length := by rw [ok.length]; exact below
  unfold clusterByte
  rw [found]
  dsimp only
  rw [List.getD_eq_getElem?_getD, List.getElem?_eq_getElem inside]
  rfl

theorem clusterByte_of_absent
    (absent : SortedMap.get? fs.clusterCache cluster = none) (offset : Nat) :
    fs.clusterByte cluster offset = fs.clusterByteOnDisk cluster offset := by
  unfold clusterByte
  rw [absent]

/-- The directory entry of a file on the disk. -/
def dirEntry (fs : FatFilesystem) (inode : FileNode) : List UInt8 :=
  readBytes fs.disk.bytes (fs.bootSector.entryAddr inode) directoryEntrySize

/-- The node points to a directory entry that is in use and is not part of a long name. -/
structure DirEntryOk (fs : FatFilesystem) (inode : FileNode) : Prop where
  inside : inode.parentDirIndex * directoryEntrySize + directoryEntrySize ≤
    fs.bootSector.bytesPerSector
  used : entryState (fs.dirEntry inode) = .used
  normal : isLong (fs.dirEntry inode) = false

theorem dirEntry_congr (boot : t.bootSector = fs.bootSector)
    (same : ∀ a, fs.bootSector.InEntry inode a → t.disk.bytes a = fs.disk.bytes a) :
    t.dirEntry inode = fs.dirEntry inode := by
  unfold dirEntry
  rw [boot]
  exact readBytes_congr fun a above below => same a ⟨above, below⟩

theorem DirEntryOk.congr (ok : DirEntryOk fs inode)
    (boot : t.bootSector = fs.bootSector) (same : t.dirEntry inode = fs.dirEntry inode) :
    DirEntryOk t inode :=
  ⟨by rw [boot]; exact ok.inside, by rw [same]; exact ok.used, by rw [same]; exact ok.normal⟩

/-- An entry stays in order while the bytes of its cluster on the disk stay as they are. -/
theorem EntryOk.congr (ok : EntryOk fs cluster entry) (boot : t.bootSector = fs.bootSector)
    (same : ∀ offset, offset < fs.bootSector.bytesPerCluster →
      t.clusterByteOnDisk cluster offset = fs.clusterByteOnDisk cluster offset) :
    EntryOk t cluster entry := by
  obtain ⟨data, number, used, length, range, clean⟩ := ok
  refine ⟨by rwa [boot], number, used, by rwa [boot], by rwa [boot], ?_⟩
  intro offset below outside
  rw [boot] at below
  rw [same offset below]
  exact clean offset below outside

end FatFilesystem

end Emerald.Fs
