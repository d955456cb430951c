
import Emerald.Fs.Fat.BootSector
import Emerald.Fs.Fat.Proofs.Entries

/-!
# The search for a free cluster

`find_free_cluster` goes through all entries that the buffer with every copy of the table has room
for, and not only through those of the data area in the first copy. As long as a data cluster is
free, it is found before anything else; when none is, an entry after the last one of the first copy
can be taken for a free cluster.
-/

namespace Emerald.Fs

open FatFilesystem

/-- The number of clusters in the data area of a volume. -/
def FatBootSector.dataClusters (b : FatBootSector) (totalSectors : Nat) : Nat :=
  b.dataSectors totalSectors / b.sectorsPerCluster

/-- The geometry of a volume: its data area starts inside of it, and the first copy of the table has
an entry for each cluster of the data area. -/
structure FatBootSector.Geometry (b : FatBootSector) (totalSectors : Nat) : Prop where
  copies : 1 ≤ b.numberOfFats
  dataStart : b.fatStartSector + b.fatSizeInSectors * b.numberOfFats + b.rootDirSectors ≤
    totalSectors
  covers : 2 + b.dataClusters totalSectors ≤
    b.ty.entryCount (b.bytesPerSector * b.fatSizeInSectors)

/-- The first copy of the table. -/
def FatFilesystem.firstCopy (fs : FatFilesystem) : Fat :=
  { fs.fat with
    buffer := fs.fat.buffer.take (fs.bootSector.bytesPerSector * fs.bootSector.fatSizeInSectors) }

/-- A cluster of the data area that is free in the first copy of the table. -/
def FatFilesystem.IsFreeCluster (fs : FatFilesystem) (clusters c : Nat) : Prop :=
  2 ≤ c ∧ c < 2 + clusters ∧ fs.firstCopy.readFatEntry c = some .free

/-- What is found is a free cluster of the data area, and one is found if there is one. -/
def FatFilesystem.FindsFreeCluster (fs : FatFilesystem) (clusters : Nat) : Prop :=
  match fs.fat.findFreeCluster with
  | some c => fs.IsFreeCluster clusters c
  | none => ∀ c, ¬ fs.IsFreeCluster clusters c

theorem FatType.entryCount_mono {ty : FatType} {size size' : Nat} (less : size ≤ size') :
    ty.entryCount size ≤ ty.entryCount size' := by
  unfold FatType.entryCount
  cases ty <;> dsimp only <;> omega

theorem FatBootSectorRaw.totalSectors_lt (raw : FatBootSectorRaw) : raw.totalSectors < 2 ^ 32 := by
  unfold FatBootSectorRaw.totalSectors
  split
  · exact lt_trans raw.totalSectors16.toNat_lt (by decide)
  · exact raw.totalSectors32.toNat_lt

section
variable {fs : FatFilesystem} {totalSectors : Nat} {fat : Fat}

/-- The search finds the first entry that is free. -/
theorem findFreeCluster_eq_some_iff {c : Nat} :
    fat.findFreeCluster = some c ↔ fat.readFatEntry c = some .free ∧ 2 ≤ c ∧
      c < fat.fatType.entryCount fat.buffer.length ∧
      ∀ i, 2 ≤ i → i < c → fat.readFatEntry i ≠ some .free := by
  unfold Fat.findFreeCluster
  rw [List.find?_range'_eq_some, List.mem_range'_1]
  simp only [decide_eq_true_eq, Bool.not_eq_true', decide_eq_false_iff_not]
  constructor
  · intro found
    obtain ⟨free, inside, first⟩ := found
    exact ⟨free, inside.1, by omega, first⟩
  · intro found
    obtain ⟨free, low, high, first⟩ := found
    exact ⟨free, ⟨low, by omega⟩, first⟩

theorem findFreeCluster_eq_none_iff :
    fat.findFreeCluster = none ↔ ∀ i, 2 ≤ i → i < fat.fatType.entryCount fat.buffer.length →
      fat.readFatEntry i ≠ some .free := by
  unfold Fat.findFreeCluster
  rw [List.find?_range'_eq_none]
  simp only [Bool.not_eq_true', decide_eq_false_iff_not]
  refine forall_congr' fun i => forall_congr' fun low => ?_
  exact ⟨fun used below => used (by omega), fun used below => used (by omega)⟩

section
variable (shape : TableShape fs) (geometry : fs.bootSector.Geometry totalSectors)
  (small : totalSectors < 2 ^ 32)
include shape geometry small

/-- The first copy is at the start of the buffer. -/
theorem firstCopy_fits :
    fs.bootSector.bytesPerSector * fs.bootSector.fatSizeInSectors ≤ fs.fat.buffer.length := by
  have exact : fs.bootSector.fatsSizeInSectors =
      fs.bootSector.fatSizeInSectors * fs.bootSector.numberOfFats := by
    have start := geometry.dataStart
    exact Nat.mod_eq_of_lt (by omega)
  rw [shape.length, exact]
  exact Nat.mul_le_mul_left _ (Nat.le_mul_of_pos_right _ geometry.copies)

/-- An entry of the first copy is read there as in the whole buffer. -/
theorem readFatEntry_firstCopy (typed : fs.fat.fatType = fs.bootSector.ty) {c : Nat}
    (inside : c < 2 + fs.bootSector.dataClusters totalSectors) :
    fs.firstCopy.readFatEntry c = fs.fat.readFatEntry c ∧
      c < fs.fat.fatType.entryCount fs.fat.buffer.length := by
  have fits := firstCopy_fits shape geometry small
  have covered := lt_of_lt_of_le inside geometry.covers
  rw [← typed] at covered
  have upto := FatType.inside_of_lt_entryCount covered
  have exact : fs.fat.fatType.Exact c :=
    shape.exact_of_inside (le_trans upto fits)
  constructor
  · show (slice? (fs.fat.buffer.take _) (fs.fat.fatType.fatOffset c) fs.fat.fatType.window).bind _ =
      (slice? fs.fat.buffer _ _).bind _
    rw [Fat.fatOffset_eq exact, slice?_take upto]
    rfl
  · exact lt_of_lt_of_le covered (FatType.entryCount_mono fits)

end

/-- A free cluster of the data area is found if there is one, or if no entry after those of the data
area is free either, in any copy of the table. -/
theorem findsFreeCluster_iff {boot : UncheckedBootSector}
    {bytes : boot.bootSector.bytesPerSector.toNat ∈ [512, 1024, 2048, 4096]}
    {sectors : boot.bootSector.sectorsPerCluster.toNat ∈ [1, 2, 4, 8, 16, 32, 64, 128]}
    (mounted : fs.bootSector = boot.checked bytes sectors) (shape : TableShape fs)
    (typed : fs.fat.fatType = boot.ty)
    (geometry : (boot.checked bytes sectors).Geometry boot.bootSector.totalSectors) :
    fs.FindsFreeCluster
        ((boot.checked bytes sectors).dataClusters boot.bootSector.totalSectors) ↔
      (∃ c, fs.IsFreeCluster
        ((boot.checked bytes sectors).dataClusters boot.bootSector.totalSectors) c) ∨
      ∀ i, 2 + (boot.checked bytes sectors).dataClusters boot.bootSector.totalSectors ≤ i →
        i < fs.fat.fatType.entryCount fs.fat.buffer.length →
        fs.fat.readFatEntry i ≠ some .free := by
  have typed' : fs.fat.fatType = fs.bootSector.ty := by
    rw [typed, mounted]
    rfl
  rw [← mounted] at geometry ⊢
  have copied := fun c => @readFatEntry_firstCopy fs _ shape geometry
    boot.bootSector.totalSectors_lt typed' c
  generalize fs.bootSector.dataClusters boot.bootSector.totalSectors = clusters at copied ⊢
  unfold FindsFreeCluster
  cases found : fs.fat.findFreeCluster with
  | none =>
    have used := findFreeCluster_eq_none_iff.mp found
    have none : ∀ c, ¬ fs.IsFreeCluster clusters c := by
      intro c isFree
      obtain ⟨low, high, free⟩ := isFree
      obtain ⟨same, below⟩ := copied c high
      exact used c low below (same.symm.trans free)
    refine ⟨fun _ => .inr fun i beyond below => used i (by omega) below, fun _ => none⟩
  | some c =>
    obtain ⟨free, low, below, first⟩ := findFreeCluster_eq_some_iff.mp found
    constructor
    · intro isFree
      exact .inl ⟨c, isFree⟩
    · intro either
      have inside : c < 2 + clusters := by
        by_contra beyond
        cases either with
        | inl other =>
          obtain ⟨d, low', high, free'⟩ := other
          exact first d low' (by omega) ((copied d high).1.symm.trans free')
        | inr none => exact none c (by omega) below free
      exact ⟨low, inside, (copied c inside).1.trans free⟩

end

/-! ### Examples -/

/-- The boot sector of a volume of FAT12 with the given number of sectors. -/
def smallBoot (totalSectors : UInt16) : UncheckedBootSector :=
  ⟨.fat12, ⟨512, 1, 1, 1, 16, totalSectors, 1, 0, 0, 0, 0xAA55⟩⟩

/-- The first cluster of an empty volume with 97 data clusters is found. -/
theorem findsFreeCluster_blankMounted : blankMounted.FindsFreeCluster 97 := by
  have geometry : blankBoot.Geometry (smallBoot 100).bootSector.totalSectors :=
    ⟨by decide, by decide, by decide⟩
  have count : ((smallBoot 100).checked blankBoot.bytesPerSector_mem
      blankBoot.sectorsPerCluster_mem).dataClusters
        (smallBoot 100).bootSector.totalSectors = 97 := by
    decide
  have first : blankMounted.IsFreeCluster 97 2 := ⟨by decide, by decide, by decide +kernel⟩
  have finds := @findsFreeCluster_iff blankMounted (smallBoot 100) blankBoot.bytesPerSector_mem
    blankBoot.sectorsPerCluster_mem rfl (TableCall.mount_marked mount_blankBoot).1 rfl geometry
  rw [count] at finds
  rw [finds]
  left
  exact ⟨2, first⟩

/-- A volume with two data clusters, which are both in use. -/
def fullVolume : FatFilesystem :=
  { blankMounted with
    fat := { blankMounted.fat with
      buffer := List.replicate 6 0xFF ++ List.replicate 506 0 } }

/-- On a full volume with two data clusters the cluster 4 is found, which it does not have. -/
theorem free_cluster_outside_data :
    blankBoot.Geometry (smallBoot 5).bootSector.totalSectors ∧
      blankBoot.dataClusters (smallBoot 5).bootSector.totalSectors = 2 ∧
      fullVolume.fat.findFreeCluster = some 4 ∧ ¬ fullVolume.FindsFreeCluster 2 := by
  have found : fullVolume.fat.findFreeCluster = some 4 := by decide +kernel
  refine ⟨⟨by decide, by decide, by decide⟩, by decide, found, ?_⟩
  unfold FindsFreeCluster
  rw [found]
  intro isFree
  exact absurd isFree.2.1 (by decide)

end Emerald.Fs
