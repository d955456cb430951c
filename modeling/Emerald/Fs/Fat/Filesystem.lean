
import Emerald.Fs.Fat.Table
import Emerald.MemoryManagement.MemoryLayout
import Emerald.Misc.SortedMap

/-!
# A mounted FAT filesystem

`FatFilesystem` of `kernel/src/fs/fat.rs` down to the sectors of its disk: loading and flushing the
table, and the cache of clusters that the open files share. The disk (`devices/ide.rs`) is read and
written in the sectors of the filesystem, counted from the start of the partition. A program that
stops keeps the state it has reached; after a panic that state is of no use.
-/

namespace Emerald.Fs

open MemoryManagement (alignDown alignUp kernelHeapSize)

/-- Why the kernel panics: a handle whose cluster is not in the cache, or any other assertion,
`expect`, index out of bounds or failed allocation. -/
inductive Panic
  | shouldBeCached
  | assertion
  deriving DecidableEq

/-- The ways an operation stops: an error it returns, or a panic. -/
inductive Failure
  | err (error : FileSystemError)
  | panic (why : Panic)
  deriving DecidableEq

/-- The state that an operation leaves to the next one; a panic leaves none. -/
def stateAfter {σ α : Type} : EStateM.Result Failure σ α → Option σ
  | .ok _ s => some s
  | .error (.err _) s => some s
  | .error (.panic _) _ => none

/-- The part of `FatBootSector` that a mounted filesystem reads, with the sizes that the format
allows. -/
structure FatBootSector where
  ty : FatType
  bytesPerSector : Nat
  sectorsPerCluster : Nat
  reservedSectorsCount : Nat
  numberOfFats : Nat
  rootEntryCount : Nat
  fatSizeInSectors : Nat
  rootCluster : Nat
  bytesPerSector_mem : bytesPerSector ∈ [512, 1024, 2048, 4096]
  sectorsPerCluster_mem : sectorsPerCluster ∈ [1, 2, 4, 8, 16, 32, 64, 128]
  deriving DecidableEq

/-- `DIRECTORY_ENTRY_SIZE`. -/
def directoryEntrySize : Nat := 32

namespace FatBootSector
variable (b : FatBootSector)

def bytesPerCluster : Nat := b.sectorsPerCluster * b.bytesPerSector

def fatStartSector : Nat := b.reservedSectorsCount

/-- The sectors of all copies of the table. -/
def fatsSizeInSectors : Nat := wrap32 (b.fatSizeInSectors * b.numberOfFats)

def rootDirSectors : Nat :=
  (b.rootEntryCount * directoryEntrySize + (b.bytesPerSector - 1)) / b.bytesPerSector

def rootDirStartSector : Nat :=
  wrap32 (b.fatStartSector + b.fatsSizeInSectors)

def dataStartSector : Nat := wrap32 (b.rootDirStartSector + b.rootDirSectors)

/-- `first_sector_of_cluster`. -/
def firstSectorOfCluster (cluster : Nat) : Nat :=
  wrap32 (b.dataStartSector + wrap32 (cluster + 2 ^ 32 - 2) * b.sectorsPerCluster)

end FatBootSector

/-- The accesses that succeed before the next one that the device refuses, for any of its reasons,
and the error it then gives. -/
abbrev FaultIn := Option (Nat × IdeError)

/-- The disk from the start of the partition on, byte by byte. It carries out every access up to the
next one that it refuses. -/
structure Disk where
  bytes : Nat → UInt8
  faultIn : FaultIn

/-- `ClusterCacheEntry`. -/
structure ClusterCacheEntry where
  cluster : Nat
  referenceCount : Nat
  dirtyRange : Option (Nat × Nat)
  data : List UInt8
  deriving DecidableEq

/-- `ClusterCache`. -/
abbrev ClusterCache := SortedMap ClusterCacheEntry

namespace ClusterCache

variable (cache : ClusterCache)

/-- `try_get_cluster_locked`, the cache with the cluster locked once more. -/
def tryGetClusterLocked (cluster : Nat) : Option ClusterCache := do
  let entry ← cache.get? cluster
  some (cache.insert cluster { entry with referenceCount := entry.referenceCount + 1 })

/-- `insert_cluster`, for a cluster that is not cached. -/
def insertCluster (cluster : Nat) (data : List UInt8) : ClusterCache :=
  cache.insert cluster ⟨cluster, 1, none, data⟩

/-- `release_cluster`: the entry, when its last user is gone, and the cache that is left. -/
def releaseCluster (cluster : Nat) :
    Option ClusterCacheEntry × ClusterCache :=
  match cache.get? cluster with
  | none => (none, cache)
  | some entry =>
    let entry := { entry with referenceCount := entry.referenceCount - 1 }
    if entry.referenceCount = 0 then (some entry, cache.erase cluster)
    else (none, cache.insert cluster entry)

end ClusterCache

/-- `FatFilesystem`. -/
structure FatFilesystem where
  startLba : Nat
  bootSector : FatBootSector
  fat : Fat
  disk : Disk
  clusterCache : ClusterCache

/-- An operation of the filesystem. -/
abbrev FatM := EStateM Failure FatFilesystem

/-- `assert!`. -/
def assertThat (condition : Bool) : FatM Unit :=
  if condition then pure () else throw (.panic .assertion)

/-- A value that the code takes to be there. -/
def orPanic {α : Type} (value : Option α) : FatM α :=
  match value with
  | some a => pure a
  | none => throw (.panic .assertion)

/-- A result of the table. -/
def orError {α : Type} (result : Except FatError α) : FatM α :=
  match result with
  | .ok a => pure a
  | .error e => throw (.err (.fatError e))

/-- `read_sync` or `write_sync`, as far as the device lets it take place. -/
def accessDisk (startSector : Nat) : FatM Unit := fun fs =>
  match fs.disk.faultIn with
  | none => .ok () fs
  | some (0, error) =>
    .error (.err (.diskReadError (fs.startLba + startSector) error))
      { fs with disk := { fs.disk with faultIn := none } }
  | some (left + 1, error) =>
    .ok () { fs with disk := { fs.disk with faultIn := some (left, error) } }

/-- `read_sectors_no_cache`. A buffer larger than the kernel heap cannot be allocated. -/
def readSectorsNoCache (startSector count : Nat) : FatM (List UInt8) := do
  if count = 0 then pure []
  else
    let sectorSize := (← get).bootSector.bytesPerSector
    assertThat (sectorSize * count ≤ kernelHeapSize)
    accessDisk startSector
    pure (readBytes (← get).disk.bytes (startSector * sectorSize) (sectorSize * count))

/-- The bytes that reach the disk when a write succeeds. -/
def FatFilesystem.storeSectors (fs : FatFilesystem) (startSector : Nat) (data : List UInt8) :
    FatFilesystem :=
  { fs with
    disk := { fs.disk with
      bytes := writeBytes fs.disk.bytes (startSector * fs.bootSector.bytesPerSector) data } }

/-- `write_sectors`. -/
def writeSectors (startSector : Nat) (data : List UInt8) : FatM Unit := do
  if data = [] then pure ()
  else
    let sectorSize := (← get).bootSector.bytesPerSector
    assertThat (data.length % sectorSize = 0)
    accessDisk startSector
    modify fun fs => fs.storeSectors startSector data

/-! ## The table -/

/-- `Fat::load`. -/
def Fat.load : FatM Fat := do
  let boot := (← get).bootSector
  let buffer ← readSectorsNoCache boot.fatStartSector boot.fatsSizeInSectors
  pure ⟨buffer, boot.bytesPerSector, boot.ty, false,
    List.replicate ((boot.fatsSizeInSectors + 63) / 64) 0⟩

/-- `FatFilesystem::new`, on a filesystem that still has the empty table of `Fat::new`. -/
def mount (startLba : Nat) (boot : FatBootSector) (disk : Disk) :
    EStateM.Result Failure FatFilesystem Unit :=
  (do let fat ← Fat.load
      modify fun fs => { fs with fat := fat } : FatM Unit)
    ⟨startLba, boot, ⟨[], 0, .fat12, false, []⟩, disk, SortedMap.empty⟩

/-- `write_fat_entry` on the table of the filesystem. -/
def writeFatEntry (entry : Nat) (fatEntry : FatEntry) : FatM Unit := do
  let fat ← orPanic ((← get).fat.writeFatEntry entry fatEntry)
  modify fun fs => { fs with fat := fat }

/-- `next_cluster` on the table of the filesystem. -/
def nextCluster (cluster : Nat) : FatM (Option Nat) := do
  let result ← orPanic ((← get).fat.nextCluster cluster)
  orError result

/-- The loop of `flush_fat`. -/
def writeFatSectors : List Nat → FatM Unit
  | [] => pure ()
  | sector :: rest => do
    let data ← orPanic ((← get).fat.sectorData sector)
    writeSectors ((← get).bootSector.fatStartSector + sector) data
    writeFatSectors rest

/-- `flush_fat`. -/
def flushFat : FatM Unit := do
  writeFatSectors ((← get).fat.dirtySectors.getD [])
  modify fun fs => { fs with fat := fs.fat.clearDirty }

/-! ## Directory entries -/

/-- `DirectoryEntryState`, from the first byte of an entry. -/
inductive DirectoryEntryState
  | free
  | freeAndLast
  | used
  deriving DecidableEq

/-- `DirectoryEntry::state` of the bytes of an entry. -/
def entryState (entry : List UInt8) : DirectoryEntryState :=
  match entry.head? with
  | some 0x00 => .freeAndLast
  | some 0xE5 => .free
  | _ => .used

/-- `attrs::LONG_NAME`. -/
def longName : UInt8 := 0x0F

/-- `DirectoryEntry::is_long`: the attributes of `from_raw` are those of a long name. -/
def isLong (entry : List UInt8) : Bool := entry.getD 11 0 &&& longName == longName

/-- `entry.file_size = size as u32`. -/
def setFileSizeField (size : Nat) (entry : List UInt8) : List UInt8 := splice entry 28 (toLE 4 size)

variable (inode : FileNode)

/-- `update_directory_entry`. -/
def updateDirectoryEntry (update : List UInt8 → List UInt8) : FatM Unit := do
  let sectorIndex := wrap32 inode.parentDirSector
  let sector ← readSectorsNoCache sectorIndex 1
  let start := inode.parentDirIndex * directoryEntrySize
  let entry ← orPanic (slice? sector start directoryEntrySize)
  assertThat (entryState entry = .used)
  assertThat (!isLong entry)
  if entry ≠ update entry then writeSectors sectorIndex (splice sector start (update entry))
  else pure ()

/-! ## The cluster cache -/

/-- `lock_cluster`. -/
def lockCluster (cluster : Nat) : FatM Unit := do
  let fs ← get
  match fs.clusterCache.tryGetClusterLocked cluster with
  | some cache => modify fun fs => { fs with clusterCache := cache }
  | none =>
    let data ← readSectorsNoCache (fs.bootSector.firstSectorOfCluster cluster)
      fs.bootSector.sectorsPerCluster
    modify fun fs => { fs with clusterCache := fs.clusterCache.insertCluster cluster data }

/-- `flush_cluster_dirty_range`. -/
def flushClusterDirtyRange (data : List UInt8) (clusterNum : Nat) (dirtyRange : Nat × Nat) :
    FatM Unit := do
  let boot := (← get).bootSector
  let startByteOffset := alignDown dirtyRange.1 boot.bytesPerSector
  let endByteOffset := alignUp dirtyRange.2 boot.bytesPerSector
  assertThat (startByteOffset < boot.bytesPerCluster)
  assertThat (endByteOffset ≤ boot.bytesPerCluster)
  assertThat (startByteOffset < endByteOffset)
  let startSector := wrap32 (boot.firstSectorOfCluster clusterNum +
    startByteOffset / boot.bytesPerSector)
  let dirty ← orPanic (slice? data startByteOffset (endByteOffset - startByteOffset))
  writeSectors startSector dirty

/-- `flush_cluster_dirty_range_file`. -/
def flushClusterDirtyRangeFile (data : List UInt8) (clusterNum : Nat)
    (dirtyRange : Nat × Nat) : FatM Unit := do
  flushFat
  updateDirectoryEntry inode (setFileSizeField inode.size)
  flushClusterDirtyRange data clusterNum dirtyRange

/-- The flush of a cluster that has left the cache. -/
def flushReleased (entry : ClusterCacheEntry) : FatM Unit :=
  match entry.dirtyRange with
  | none => pure ()
  | some dirtyRange => flushClusterDirtyRangeFile inode entry.data entry.cluster dirtyRange

/-- `FatFilesystem::release_cluster`. -/
def releaseCluster (inode : FileNode) (cluster : Nat) : FatM Unit := do
  let released := (← get).clusterCache.releaseCluster cluster
  modify fun fs => { fs with clusterCache := released.2 }
  match released.1 with
  | none => pure ()
  | some entry => flushReleased inode entry

/-- `flush_cluster`. The data are out of the cache while they are written, and a flush that fails
does not put them back. -/
def flushCluster (cluster : Nat) : FatM Unit := do
  match (← get).clusterCache.get? cluster with
  | none => pure ()
  | some entry =>
    match entry.dirtyRange with
    | none => pure ()
    | some dirtyRange =>
      modify fun fs => { fs with
        clusterCache :=
          fs.clusterCache.insert cluster { entry with dirtyRange := none, data := [] } }
      flushClusterDirtyRangeFile inode entry.data entry.cluster dirtyRange
      modify fun fs => { fs with
        clusterCache := fs.clusterCache.insert cluster { entry with dirtyRange := none } }

end Emerald.Fs
