
import Emerald.Fs.Fat.BootSector

/-!
# The type of a volume

The type of a volume is specified by the number of clusters in its data area. `FatBootSector::new`
takes the size of the partition in place of the data area, does not look at the boot sector's own
number of sectors, and divides by the sectors of a cluster without a check.
-/

namespace Emerald.Fs

namespace FatBootSectorRaw
variable (raw : FatBootSectorRaw)

/-- The sectors of one copy of the table. -/
def fatSize : Nat :=
  if raw.fatSize16 ≠ 0 then raw.fatSize16.toNat else raw.fatSize32.toNat

/-- The sectors of the root directory. -/
def rootDirSectors : Nat :=
  (raw.rootEntryCount.toNat * directoryEntrySize + (raw.bytesPerSector.toNat - 1)) /
    raw.bytesPerSector.toNat

/-- The count of clusters that the type is specified by. -/
def countOfClusters : Nat :=
  (raw.totalSectors - (raw.reservedSectorsCount.toNat + raw.numberOfFats.toNat * raw.fatSize +
    raw.rootDirSectors)) / raw.sectorsPerCluster.toNat

/-- The type that is specified for the volume. -/
def specifiedType : FatType :=
  if raw.countOfClusters < 4085 then .fat12
  else if raw.countOfClusters < 65525 then .fat16
  else .fat32

/-- `FatBootSector::new` does not panic, and the boot sector it gives has the specified type. -/
def DetectsType (sizeInSectors : UInt32) : Prop :=
  ∃ result, UncheckedBootSector.new raw sizeInSectors = some result ∧
    ∀ boot, result = .ok boot → boot.ty = raw.specifiedType

/-- Two counts are on the same side of both limits. -/
def SameType (count count' : Nat) : Prop :=
  (count < 4085 ↔ count' < 4085) ∧ (count < 65525 ↔ count' < 65525)

theorem typeOf_eq_iff (count count' : Nat) :
    ((if count ≤ 4084 then FatType.fat12 else if count ≤ 65524 then .fat16 else .fat32) =
      if count' < 4085 then .fat12 else if count' < 65525 then .fat16 else .fat32) ↔
        SameType count count' := by
  unfold SameType
  split_ifs <;> simp only [true_iff, false_iff] <;> omega

theorem fat32_eq_specifiedType_iff : .fat32 = raw.specifiedType ↔ 65525 ≤ raw.countOfClusters := by
  unfold specifiedType
  split_ifs <;> simp only [true_iff, false_iff] <;> omega

/-- The type is detected for a sector without the signature, which is refused, and if there are
sectors in a cluster and the partition and the data area have as many clusters as one type has, or
the data area has as many as FAT32 where the field of the other types is zero. -/
theorem detectsType_iff (raw : FatBootSectorRaw) (sizeInSectors : UInt32) :
    raw.DetectsType sizeInSectors ↔
      raw.bootSignature2 ≠ 0xAA55 ∨ raw.sectorsPerCluster ≠ 0 ∧
        (raw.fatSize16 = 0 → 65525 ≤ raw.countOfClusters) ∧
        (raw.fatSize16 ≠ 0 → SameType (sizeInSectors.toNat / raw.sectorsPerCluster.toNat)
          raw.countOfClusters) := by
  unfold DetectsType UncheckedBootSector.new
  by_cases signed : raw.bootSignature2 ≠ 0xAA55
  · rw [if_pos signed]
    exact ⟨fun _ => .inl signed, fun _ => ⟨_, rfl, nofun⟩⟩
  · rw [if_neg signed]
    by_cases none : raw.sectorsPerCluster = 0
    · rw [if_pos none]
      refine ⟨fun detects => ?_, fun either => ?_⟩
      · obtain ⟨result, panics, -⟩ := detects
        cases panics
      · exact absurd none (either.resolve_left signed).1
    · have made : ∀ ty : FatType,
          (∃ result,
            some (Except.ok (ε := FatError) (UncheckedBootSector.mk ty raw)) = some result ∧
            ∀ boot, result = .ok boot → boot.ty = raw.specifiedType) ↔ ty = raw.specifiedType := by
        intro ty
        constructor
        · intro detects
          obtain ⟨result, same, typed⟩ := detects
          cases same
          exact typed _ rfl
        · intro same
          refine ⟨_, rfl, fun boot built => ?_⟩
          cases built
          exact same
      have only : ∀ p : Prop, (raw.bootSignature2 ≠ 0xAA55 ∨ raw.sectorsPerCluster ≠ 0 ∧ p) ↔ p :=
        fun p => ⟨fun either => (either.resolve_left signed).2, fun holds => .inr ⟨none, holds⟩⟩
      rw [if_neg none, made, only]
      by_cases zero : raw.fatSize16 = 0
      · rw [if_pos zero, fat32_eq_specifiedType_iff]
        exact ⟨fun many => ⟨fun _ => many, fun other => absurd zero other⟩, fun both => both.1 zero⟩
      · rw [if_neg zero, specifiedType, typeOf_eq_iff]
        exact ⟨fun same => ⟨fun other => absurd other zero, fun _ => same⟩, fun both => both.2 zero⟩

/-- A volume of 4100 sectors, of which 4043 are in its data area. -/
def nearLimit : FatBootSectorRaw := ⟨512, 1, 1, 2, 512, 4100, 12, 0, 0, 0, 0xAA55⟩

/-- A volume of FAT12 is taken to be of FAT16, and a sector with no sectors in a cluster makes
`FatBootSector::new` panic. -/
theorem type_not_detected :
    nearLimit.specifiedType = .fat12 ∧
      UncheckedBootSector.new nearLimit 4100 = some (.ok ⟨.fat16, nearLimit⟩) ∧
      ¬ nearLimit.DetectsType 4100 ∧
      UncheckedBootSector.new { nearLimit with sectorsPerCluster := 0 } 4100 = none := by
  have wrong : UncheckedBootSector.new nearLimit 4100 = some (.ok ⟨.fat16, nearLimit⟩) := by decide
  refine ⟨by decide, wrong, ?_, by decide⟩
  intro detects
  obtain ⟨result, made, typed⟩ := detects
  cases made
  exact absurd (typed _ rfl) (by decide)

end FatBootSectorRaw

end Emerald.Fs
