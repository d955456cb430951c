
import Emerald.Fs.Fat.Proofs.DirectoryContent
import Emerald.Fs.Fat.Proofs.UntrustedDirectories

/-!
# The sectors that a scan visits

`DirectoryIterator` of `kernel/src/fs/fat.rs` starts in the first sector of the first cluster of a
directory. From there `next_sector` takes a cluster to end before each sector whose number is a
multiple of `sectors_per_cluster`, and a cluster to start at its number times
`sectors_per_cluster`. Both are numbers of sectors of the volume and not of the data area, so the
scan visits the sectors of the clusters only if the data area starts in the right place.
-/

namespace Emerald.Fs

/-- `get_next_entry` is called until it gives an error: the slots, by their place and content, and
the error. -/
def visitSlots (bound : Nat) : Nat → DirSession → Option (List Slot × FileSystemError)
  | 0, _ => none
  | turns + 1, s =>
    match getNextEntry bound s with
    | .ok bytes t => (visitSlots bound turns t).map fun visited =>
        (⟨t.iter.currentSectorIndex, t.iter.entryIndexInSector - 1, bytes⟩ :: visited.1, visited.2)
    | .error (.failure (.err error)) _ => some ([], error)
    | .error _ _ => none

/-- The scan of a directory, from `DirectoryIterator::new` on. -/
def scanDirectory (turns : Nat) (inode : DirectoryNode) (fs : FatFilesystem) :
    Option (List Slot × FileSystemError) :=
  match DirectoryIterator.new (.normal inode) fs with
  | .ok iter fs => visitSlots turns turns ⟨fs, iter⟩
  | .error _ _ => none

/-- The sectors of a cluster. -/
def FatBootSector.sectorsOf (boot : FatBootSector) (cluster : Nat) : List Nat :=
  List.range' (boot.firstSectorOfCluster cluster) boot.sectorsPerCluster

/-- The slots of all sectors of all clusters of a chain. -/
def FatFilesystem.chainSlots (fs : FatFilesystem) (chain : List Nat) : List Slot :=
  Content.slots fs.sectorBytes (chain.flatMap fs.bootSector.sectorsOf)

/-! ## What is visited -/

theorem Faces.visitSlots {s : DirSession} {content : Content} {slots : List Slot}
    (faces : Faces s content slots) (bound turns : Nat) (enough : slots.length < turns) :
    visitSlots (bound + 2) turns s = some (slots, .fileNotFound) := by
  induction turns generalizing s slots with
  | zero => exact absurd enough (Nat.not_lt_zero _)
  | succ turns ih =>
    unfold Fs.visitSlots
    cases slots with
    | nil => rw [faces.getNextEntry_nil bound]
    | cons slot rest =>
      obtain ⟨t, run, gives⟩ := faces.getNextEntry_cons bound
      rw [run]
      simp only
      rw [ih gives.faces (Nat.lt_of_succ_lt_succ enough), Option.map_some, gives.gave.sector,
        gives.gave.index, Nat.add_sub_cancel]

/-- The iterator over a chain of clusters faces the slots of the sectors it goes to. -/
theorem new_faces {fs : FatFilesystem} {inode : DirectoryNode} {rest : List Nat}
    (working : fs.disk.faultIn = none)
    (notRoot : ¬ (fs.bootSector.ty ≠ .fat32 ∧ inode.startCluster = 0))
    (linked : fs.fat.Linked (wrap32 inode.startCluster :: rest)) :
    ∃ iter, DirectoryIterator.new (.normal inode) fs = .ok iter fs ∧
      Faces ⟨fs, iter⟩ fs.sectorBytes (Content.slots fs.sectorBytes
        (chainSectors fs.bootSector (wrap32 inode.startCluster) rest)) := by
  generalize cluster : wrap32 inode.startCluster = first at linked ⊢
  have small : fs.bootSector.firstSectorOfCluster first < 2 ^ 32 := wrap32_lt _
  refine ⟨⟨.normal inode, fs.sectorBytes (fs.bootSector.firstSectorOfCluster first),
    fs.bootSector.firstSectorOfCluster first, first, false, 0⟩, ?_, ?_⟩
  · have start : DirectoryIterator.new (.normal inode) fs =
        DirectoryIterator.start (.normal inode)
          (fs.bootSector.firstSectorOfCluster (wrap32 inode.startCluster))
          (wrap32 inode.startCluster) fs := by
      unfold DirectoryIterator.new
      rw [get_bind]
      simp only
      rw [if_neg notRoot]
    rw [start, cluster, DirectoryIterator.start, bind_of_ok (readSectorsNoCache_working working _)]
    rfl
  · refine ⟨⟨working, length_sectorBytes _ _, rfl, fun _ _ => rfl⟩, _, .chain rfl linked small, ?_⟩
    rw [chainSectors, Content.slots, List.flatMap_cons, List.drop_zero]
    rfl

/-! ## Lists of sectors -/

/-- The slots tell which sectors they come from. -/
theorem slots_sectors (content : Content) {perSector : Nat}
    (whole : ∀ sector, (content sector).length / directoryEntrySize = perSector)
    (sectors : List Nat) :
    (content.slots sectors).map Slot.sector = sectors.flatMap (List.replicate perSector) := by
  induction sectors with
  | nil => rfl
  | cons sector rest ih =>
    have here : (slotsOf sector (content sector)).map Slot.sector =
        List.replicate perSector sector := by
      rw [slotsOf, List.map_map, whole, List.eq_replicate_iff, List.length_map, List.length_range]
      refine ⟨rfl, ?_⟩
      intro other mem
      obtain ⟨index, -, rfl⟩ := List.mem_map.mp mem
      rfl
    show ((slotsOf sector (content sector)) ++ content.slots rest).map Slot.sector = _
    rw [List.map_append, here, ih, List.flatMap_cons]

theorem flatMap_replicate_inj {k : Nat} (pos : 0 < k) {l r : List Nat}
    (same : l.flatMap (List.replicate k) = r.flatMap (List.replicate k)) : l = r := by
  obtain ⟨k, rfl⟩ := Nat.exists_eq_succ_of_ne_zero (ne_of_gt pos)
  induction l generalizing r with
  | nil =>
    cases r with
    | nil => rfl
    | cons y ys => cases same
  | cons x xs ih =>
    cases r with
    | nil => cases same
    | cons y ys =>
      obtain ⟨rfl, rest⟩ := List.cons.inj same
      rw [ih (List.append_cancel_left rest)]

/-- Different lists of sectors have different slots. -/
theorem slots_inj (fs : FatFilesystem) {l r : List Nat} :
    Content.slots fs.sectorBytes l = Content.slots fs.sectorBytes r ↔ l = r := by
  constructor
  · intro same
    have whole : ∀ sector, (fs.sectorBytes sector).length / directoryEntrySize =
        fs.bootSector.bytesPerSector / directoryEntrySize := by
      intro sector
      rw [length_sectorBytes]
    apply flatMap_replicate_inj (one_le_slots fs.bootSector)
    rw [← slots_sectors fs.sectorBytes whole, ← slots_sectors fs.sectorBytes whole, same]
  · intro same
    rw [same]

/-- Numbering from `two` and starting at `start` gives the plain product, in arithmetic modulo `m`,
only where `start` is what the first numbers would take. -/
theorem mul_modEq_shifted_iff {m two : Nat} (small : two ≤ m) (start size number : Nat) :
    number * size ≡ start + (number + m - two) % m * size [MOD m] ↔
      start ≡ two * size [MOD m] := by
  have shifted : start + (number + m - two) % m * size ≡
      start + (m - two) * size + number * size [MOD m] := by
    have reduced := ((Nat.mod_modEq (number + m - two) m).mul_right size).add_left start
    rw [Nat.add_sub_assoc small, add_mul, add_comm (number * size), ← add_assoc] at reduced
    rw [Nat.add_sub_assoc small]
    exact reduced
  have whole : two * size + (m - two) * size ≡ 0 [MOD m] := by
    rw [← add_mul, Nat.add_sub_cancel' small]
    exact Nat.modEq_zero_iff_dvd.mpr (Dvd.intro _ rfl)
  constructor
  · intro same
    have zero : 0 ≡ start + (m - two) * size [MOD m] := by
      apply Nat.ModEq.add_right_cancel' (number * size)
      rw [zero_add]
      exact same.trans shifted
    exact Nat.ModEq.add_right_cancel' _ (zero.symm.trans whole.symm)
  · intro same
    have zero := (same.add_right ((m - two) * size)).trans whole
    have moved := zero.add_right (number * size)
    rw [zero_add] at moved
    exact (shifted.trans moved).symm

namespace FatBootSector
variable (b : FatBootSector)

theorem firstSectorOfCluster_mod (cluster : Nat) :
    b.firstSectorOfCluster cluster % b.sectorsPerCluster =
      b.dataStartSector % b.sectorsPerCluster := by
  unfold firstSectorOfCluster
  rw [b.wrap32_mod, Nat.add_mul_mod_self_right]

/-- A cluster starts where `next_sector` takes it to start only if the data area starts two clusters
after the start of the volume. -/
theorem clusterStart_iff (cluster : Nat) :
    wrap32 (cluster * b.sectorsPerCluster) = b.firstSectorOfCluster cluster ↔
      b.dataStartSector = 2 * b.sectorsPerCluster := by
  have dataSmall : b.dataStartSector < 2 ^ 32 := wrap32_lt _
  have clusterSmall : 2 * b.sectorsPerCluster < 2 ^ 32 := by
    have sizes := b.sectorsPerCluster_mem
    simp only [List.mem_cons, List.not_mem_nil, or_false] at sizes
    omega
  have shifted := mul_modEq_shifted_iff (by decide : 2 ≤ 2 ^ 32) b.dataStartSector
    b.sectorsPerCluster cluster
  constructor
  · intro same
    exact (shifted.mp same).eq_of_lt_of_lt dataSmall clusterSmall
  · intro start
    exact shifted.mpr (start ▸ Nat.ModEq.rfl)

theorem length_chainSectors (first : Nat) (rest : List Nat) :
    (chainSectors b first rest).length = 1 + (b.sectorsPerCluster - 1 -
      b.firstSectorOfCluster first % b.sectorsPerCluster + rest.length * b.sectorsPerCluster) := by
  unfold chainSectors sectorsToBoundary clusterSectors
  rw [List.length_cons, List.length_append, List.length_range', List.length_flatMap]
  simp only [List.length_range', List.map_const', List.sum_replicate_nat]
  omega

theorem length_flatMap_sectorsOf (chain : List Nat) :
    (chain.flatMap b.sectorsOf).length = chain.length * b.sectorsPerCluster := by
  unfold sectorsOf
  rw [List.length_flatMap]
  simp only [List.length_range', List.map_const', List.sum_replicate_nat]

/-- In a data area that starts at a multiple of the cluster size the first cluster is visited as a
whole. -/
theorem chainSectors_of_aligned (aligned : b.dataStartSector % b.sectorsPerCluster = 0)
    (first : Nat) (rest : List Nat) : chainSectors b first rest =
      b.sectorsOf first ++ rest.flatMap (clusterSectors b) := by
  have pos := b.sectorsPerCluster_pos
  have count : b.sectorsPerCluster = b.sectorsPerCluster - 1 + 1 := by omega
  unfold chainSectors sectorsToBoundary sectorsOf
  rw [b.firstSectorOfCluster_mod, aligned, Nat.sub_zero, ← List.cons_append, ← List.range'_succ,
    ← count]

theorem clusterSectors_eq_sectorsOf (start : b.dataStartSector = 2 * b.sectorsPerCluster)
    (cluster : Nat) : clusterSectors b cluster = b.sectorsOf cluster := by
  unfold clusterSectors sectorsOf
  rw [(b.clusterStart_iff cluster).mpr start]

/-- The sectors that are visited are those of the clusters only if the first cluster starts at a
multiple of the cluster size and each other one where `next_sector` takes it to start. -/
theorem chainSectors_eq_iff (first : Nat) (rest : List Nat) :
    chainSectors b first rest = (first :: rest).flatMap b.sectorsOf ↔
      b.dataStartSector % b.sectorsPerCluster = 0 ∧
        (rest = [] ∨ b.dataStartSector = 2 * b.sectorsPerCluster) := by
  have pos := b.sectorsPerCluster_pos
  constructor
  · intro same
    have aligned : b.dataStartSector % b.sectorsPerCluster = 0 := by
      have below := Nat.mod_lt (b.firstSectorOfCluster first) pos
      have lengths := congrArg List.length same
      rw [b.length_chainSectors, b.length_flatMap_sectorsOf, List.length_cons, Nat.succ_mul,
        b.firstSectorOfCluster_mod] at lengths
      rw [b.firstSectorOfCluster_mod] at below
      omega
    refine ⟨aligned, ?_⟩
    cases rest with
    | nil => exact .inl rfl
    | cons next rest =>
      right
      rw [b.chainSectors_of_aligned aligned] at same
      have tails : (next :: rest).flatMap (clusterSectors b) =
          (next :: rest).flatMap b.sectorsOf := List.append_cancel_left same
      have heads := congrArg List.head? tails
      obtain ⟨size, count⟩ := Nat.exists_eq_succ_of_ne_zero (ne_of_gt pos)
      rw [List.flatMap_cons, List.flatMap_cons, clusterSectors, sectorsOf, count,
        List.range'_succ, List.range'_succ, ← count] at heads
      exact (b.clusterStart_iff next).mp (Option.some.inj heads)
  · rintro ⟨aligned, single | start⟩
    · subst single
      rw [b.chainSectors_of_aligned aligned]
      rfl
    · rw [b.chainSectors_of_aligned aligned, List.flatMap_cons,
        funext (b.clusterSectors_eq_sectorsOf start)]

end FatBootSector

/-! ## All slots of a directory -/

/-- A directory that is a chain of clusters is scanned slot by slot, in the order of the chain and
to its end, exactly if the data area starts at a multiple of the cluster size and either the chain
is a single cluster or the data area starts two clusters after the start of the volume. -/
theorem scanDirectory_complete_iff {fs : FatFilesystem} {inode : DirectoryNode} {rest : List Nat}
    (working : fs.disk.faultIn = none)
    (notRoot : ¬ (fs.bootSector.ty ≠ .fat32 ∧ inode.startCluster = 0))
    (linked : fs.fat.Linked (wrap32 inode.startCluster :: rest)) :
    ∃ enough, ∀ turns, enough ≤ turns →
      (scanDirectory turns inode fs =
          some (fs.chainSlots (wrap32 inode.startCluster :: rest), .fileNotFound) ↔
        fs.bootSector.dataStartSector % fs.bootSector.sectorsPerCluster = 0 ∧
          (rest = [] ∨
            fs.bootSector.dataStartSector = 2 * fs.bootSector.sectorsPerCluster)) := by
  obtain ⟨iter, opened, faces⟩ := new_faces working notRoot linked
  refine ⟨(Content.slots fs.sectorBytes
    (chainSectors fs.bootSector (wrap32 inode.startCluster) rest)).length + 2, ?_⟩
  intro turns enough
  obtain ⟨more, rfl⟩ := Nat.exists_eq_add_of_le' (le_trans (Nat.le_add_left 2 _) enough)
  have visited := faces.visitSlots more (more + 2) (by omega)
  unfold scanDirectory
  rw [opened]
  dsimp only
  rw [visited, Option.some_inj, Prod.mk.injEq, and_iff_left rfl, FatFilesystem.chainSlots,
    slots_inj, FatBootSector.chainSectors_eq_iff]

/-- A volume of FAT32 whose data area starts two clusters after the start, with a directory of two
clusters. -/
def alignedClusters : FatFilesystem :=
  { smallVolume with
    bootSector := { blankBoot with ty := .fat32, rootEntryCount := 0, rootCluster := 2 }
    fat := ⟨List.replicate 8 0 ++ [3, 0, 0, 0, 0xFF, 0xFF, 0xFF, 0x0F], 512, .fat32, false, []⟩ }

/-- A directory of one cluster is scanned, and one of two clusters. -/
theorem scan_one_and_two_clusters : ∃ enough, ∀ turns, enough ≤ turns →
    scanDirectory turns directoryNode smallVolume =
        some (smallVolume.chainSlots [2], .fileNotFound) ∧
      scanDirectory turns directoryNode alignedClusters =
        some (alignedClusters.chainSlots [2, 3], .fileNotFound) := by
  have cluster : wrap32 directoryNode.startCluster = 2 := by decide
  have one : smallVolume.fat.Linked (wrap32 directoryNode.startCluster :: []) := by
    show smallVolume.fat.readFatEntry (wrap32 directoryNode.startCluster) = some .endOfChain
    decide
  have two : alignedClusters.fat.Linked (wrap32 directoryNode.startCluster :: [3]) := by
    refine ⟨by decide, ?_⟩
    show alignedClusters.fat.readFatEntry 3 = some .endOfChain
    decide
  obtain ⟨enough, complete⟩ :=
    @scanDirectory_complete_iff smallVolume directoryNode [] rfl (by decide) one
  obtain ⟨enough', complete'⟩ :=
    @scanDirectory_complete_iff alignedClusters directoryNode [3] rfl (by decide) two
  refine ⟨max enough enough', fun turns more => ?_⟩
  exact ⟨(complete turns (le_of_max_le_left more)).mpr ⟨by decide, .inl rfl⟩,
    (complete' turns (le_of_max_le_right more)).mpr ⟨by decide, .inr (by decide)⟩⟩

/-- The same volume, but with a second cluster in the chain of the directory. -/
def twoClusters : FatFilesystem :=
  { smallVolume with fat := ⟨[0, 0, 0, 0x03, 0xF0, 0xFF], 512, .fat12, false, []⟩ }

/-- In a directory of two clusters the first one is visited twice, as the data area starts in
sector 3, so that the sector `3 * sectors_per_cluster` belongs to cluster 2. -/
theorem first_cluster_scanned_twice :
    twoClusters.fat.readFatEntry 2 = some (.next 3) ∧
      twoClusters.fat.readFatEntry 3 = some .endOfChain ∧
      scanDirectory 34 directoryNode twoClusters =
        some (Content.slots twoClusters.sectorBytes [3, 3], .fileNotFound) ∧
      twoClusters.chainSlots [2, 3] = Content.slots twoClusters.sectorBytes [3, 4] ∧
      scanDirectory 34 directoryNode twoClusters ≠
        some (twoClusters.chainSlots [2, 3], .fileNotFound) := by
  decide +kernel

end Emerald.Fs
