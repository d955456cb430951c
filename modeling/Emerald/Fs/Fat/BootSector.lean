
import Emerald.Fs.Fat.Filesystem

/-!
# The boot sector

`FatBootSectorRaw` and `FatBootSector::new` of `kernel/src/fs/fat.rs`, with the fields that the
filesystem reads. Nothing is checked of the fields except the signature; `FatBootSector` of the
model of the filesystem is a boot sector whose sizes are those that the format allows.
-/

namespace Emerald.Fs

/-- `FatBootSectorRaw`. The two forms of `FatExtendedBootSector` have the second signature at the
same place; `fat_size_32` and `root_cluster` are those of FAT32. -/
structure FatBootSectorRaw where
  bytesPerSector : UInt16
  sectorsPerCluster : UInt8
  reservedSectorsCount : UInt16
  numberOfFats : UInt8
  rootEntryCount : UInt16
  totalSectors16 : UInt16
  fatSize16 : UInt16
  totalSectors32 : UInt32
  fatSize32 : UInt32
  rootCluster : UInt32
  bootSignature2 : UInt16
  deriving DecidableEq

/-- `FatBootSector`, of which nothing is known but its type. -/
structure UncheckedBootSector where
  ty : FatType
  bootSector : FatBootSectorRaw
  deriving DecidableEq

/-- `total_sectors`. -/
def FatBootSectorRaw.totalSectors (raw : FatBootSectorRaw) : Nat :=
  if raw.totalSectors16 ≠ 0 then raw.totalSectors16.toNat else raw.totalSectors32.toNat

namespace UncheckedBootSector

/-- `FatBootSector::new`, for a partition of the given size. `none` is a panic, of the division. -/
def new (bootSector : FatBootSectorRaw) (sizeInSectors : UInt32) :
    Option (Except FatError UncheckedBootSector) :=
  if bootSector.bootSignature2 ≠ 0xAA55 then some (.error .invalidBootSector)
  else if bootSector.sectorsPerCluster = 0 then none
  else
    let countOfClusters := sizeInSectors.toNat / bootSector.sectorsPerCluster.toNat
    let fatType :=
      if bootSector.fatSize16 = 0 then .fat32
      else if countOfClusters ≤ 4084 then .fat12
      else if countOfClusters ≤ 65524 then .fat16
      else .fat32
    some (.ok ⟨fatType, bootSector⟩)

/-- `fat_size_in_sectors`. -/
def fatSizeInSectors (b : UncheckedBootSector) : Nat :=
  if b.ty = .fat32 then b.bootSector.fatSize32.toNat else b.bootSector.fatSize16.toNat

/-- The boot sector of a filesystem, if the sizes are those of the format. -/
def checked (b : UncheckedBootSector)
    (bytesPerSector : b.bootSector.bytesPerSector.toNat ∈ [512, 1024, 2048, 4096])
    (sectorsPerCluster :
      b.bootSector.sectorsPerCluster.toNat ∈ [1, 2, 4, 8, 16, 32, 64, 128]) : FatBootSector where
  ty := b.ty
  bytesPerSector := b.bootSector.bytesPerSector.toNat
  sectorsPerCluster := b.bootSector.sectorsPerCluster.toNat
  reservedSectorsCount := b.bootSector.reservedSectorsCount.toNat
  numberOfFats := b.bootSector.numberOfFats.toNat
  rootEntryCount := b.bootSector.rootEntryCount.toNat
  fatSizeInSectors := b.fatSizeInSectors
  rootCluster := b.bootSector.rootCluster.toNat
  bytesPerSector_mem := bytesPerSector
  sectorsPerCluster_mem := sectorsPerCluster

end UncheckedBootSector

/-- `data_sectors`, of a volume with the given number of sectors. -/
def FatBootSector.dataSectors (b : FatBootSector) (totalSectors : Nat) : Nat :=
  wrap32 (totalSectors + 2 ^ 32 - b.dataStartSector)

end Emerald.Fs
