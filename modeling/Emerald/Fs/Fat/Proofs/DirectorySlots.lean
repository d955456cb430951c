
import Emerald.Fs.Fat.Directory
import Emerald.Fs.Fat.Proofs.Chains
import Emerald.Fs.Fat.Proofs.Sectors

/-!
# The slots of a directory

The sectors of a directory that the iterator goes through are a list, that of the root directory or
that of a chain of clusters, and so are the 32-byte slots in them. The iterator stands somewhere in
this list: `get_next_entry` gives its next slot, and fails at its end. A sector that cannot be read
ends the list as well.
-/

namespace Emerald.Fs
variable {t s : DirSession} {rest later : List Nat}
variable {sector : Nat}

section
variable {α : Type} {s : DirSession} {post : α → DirSession → Prop}
  {fail : DirFailure → DirSession → Prop}

theorem meets_onVolume {p : FatM α} : Meets (onVolume p) s post fail ↔
    Meets p s.fs (fun a fs => post a { s with fs })
      (fun failure fs => fail (.failure failure) { s with fs }) := by
  unfold Meets onVolume
  cases p s.fs <;> rfl

theorem onVolume_ok {p : FatM α} {a : α} {fs : FatFilesystem} (run : p s.fs = .ok a fs) :
    onVolume p s = .ok a { s with fs } := by
  unfold onVolume
  rw [run]

theorem okOnly_ok {p : DirM α} {a : α} (run : p s = .ok a t) : okOnly p s = .ok (some a) t := by
  unfold okOnly
  rw [run]

theorem okOnly_err {p : DirM α} {error : FileSystemError}
    (run : p s = .error (.failure (.err error)) t) : okOnly p s = .ok none t := by
  unfold okOnly
  rw [run]

end

/-! ## Sectors that can be read -/

variable (fs : FatFilesystem)

/-- The sector with the given index, as it is on the disk. -/
def FatFilesystem.sectorBytes (sector : Nat) : List UInt8 :=
  readBytes fs.disk.bytes (sector * fs.bootSector.bytesPerSector) fs.bootSector.bytesPerSector

/-- The sectors of the list that are read before the device refuses one. -/
def served (faultIn : FaultIn) (sectors : List Nat) : List Nat :=
  match faultIn with
  | none => sectors
  | some (left, _) => sectors.take left

theorem served_nil (faultIn : FaultIn) : served faultIn [] = [] := by
  unfold served
  split
  · rfl
  · exact List.take_nil

/-- A sector is read, or the device refuses it. -/
inductive ReadsSector (fs : FatFilesystem) (sector : Nat) :
    EStateM.Result Failure FatFilesystem (List UInt8) → Prop
  | read {faultIn : FaultIn}
      (counts : ∀ later,
        served fs.disk.faultIn (sector :: later) = sector :: served faultIn later) :
      ReadsSector fs sector (.ok (fs.sectorBytes sector) (fs.withFaultIn faultIn))
  | refused {error : FileSystemError} {faultIn : FaultIn}
      (none : ∀ sectors, served fs.disk.faultIn sectors = []) :
      ReadsSector fs sector (.error (.err error) (fs.withFaultIn faultIn))

theorem readSectorsNoCache_one (sector : Nat) :
    ReadsSector fs sector (readSectorsNoCache sector 1 fs) := by
  have asserted : assertThat (fs.bootSector.bytesPerSector * 1 ≤ MemoryManagement.kernelHeapSize)
      fs = .ok () fs := by
    rw [decide_eq_true fs.bootSector.sector_fits]
    rfl
  have start : readSectorsNoCache sector 1 fs =
      (do accessDisk sector
          pure (readBytes (← get).disk.bytes (sector * fs.bootSector.bytesPerSector)
            (fs.bootSector.bytesPerSector * 1)) : FatM (List UInt8)) fs := by
    show (assertThat _ >>= _) fs = _
    rw [bind_of_ok asserted]
  rw [start, mul_one]
  cases faults : fs.disk.faultIn with
  | none =>
    have served : ReadsSector fs sector (.ok (fs.sectorBytes sector)
        (fs.withFaultIn fs.disk.faultIn)) := .read fun later => by rw [faults]; rfl
    rw [bind_of_ok (show accessDisk sector fs = .ok () fs by unfold accessDisk; rw [faults])]
    exact served
  | some fault =>
    obtain ⟨left, error⟩ := fault
    cases left with
    | zero =>
      rw [bind_of_error (show accessDisk sector fs = .error _ (fs.withFaultIn none) by
        unfold accessDisk; rw [faults]; rfl)]
      exact .refused fun sectors => by rw [faults]; rfl
    | succ left =>
      rw [bind_of_ok (show accessDisk sector fs = .ok () (fs.withFaultIn (some (left, error))) by
        unfold accessDisk; rw [faults]; rfl)]
      exact .read fun later => by rw [faults]; rfl

/-! ## The sectors of a directory -/

variable (boot : FatBootSector)

/-- The sectors that the iterator reads for a cluster after the first one. -/
def clusterSectors (cluster : Nat) : List Nat :=
  List.range' (wrap32 (cluster * boot.sectorsPerCluster)) boot.sectorsPerCluster

/-- The sectors after the given one up to the next multiple of `sectors_per_cluster`. -/
def sectorsToBoundary (sector : Nat) : List Nat :=
  List.range' (sector + 1) (boot.sectorsPerCluster - 1 - sector % boot.sectorsPerCluster)

/-- The sectors that the iterator reads for a chain of clusters. -/
def chainSectors (first : Nat) (rest : List Nat) : List Nat :=
  boot.firstSectorOfCluster first ::
    (sectorsToBoundary boot (boot.firstSectorOfCluster first) ++
      rest.flatMap (clusterSectors boot))

/-- The sectors that the iterator reads for the root directory of FAT12 and FAT16. -/
def rootSectors : List Nat :=
  boot.rootDirStartSector :: List.range' (boot.rootDirStartSector + 1) (boot.rootDirSectors - 1)

/-- The directory is well formed, and the iterator reads these sectors for it: it is the root
directory, and that ends below sector `2 ^ 32 - 1`, or its clusters are a chain in the data region.
After the first cluster these need not be the sectors of the directory, since the iterator leaves
out where the data starts. -/
inductive IsDirectory (fs : FatFilesystem) (inode : DirectoryNode) : List Nat → Prop
  | root (root : fs.bootSector.ty ≠ .fat32 ∧ inode.startCluster = 0)
      (inside : fs.bootSector.rootDirStartSector + fs.bootSector.rootDirSectors + 1 < 2 ^ 32) :
      IsDirectory fs inode (rootSectors fs.bootSector)
  | chain {rest : List Nat} (notRoot : ¬ (fs.bootSector.ty ≠ .fat32 ∧ inode.startCluster = 0))
      (linked : fs.fat.Linked (wrap32 inode.startCluster :: rest))
      (clusters : ∀ c ∈ wrap32 inode.startCluster :: rest,
        2 ≤ c ∧ fs.bootSector.dataStartSector + c * fs.bootSector.sectorsPerCluster < 2 ^ 32) :
      IsDirectory fs inode (chainSectors fs.bootSector (wrap32 inode.startCluster) rest)

/-- The sectors that the iterator goes to after the current one. -/
inductive Upcoming (fs : FatFilesystem) (iter : DirectoryIterator) : List Nat → Prop
  | root {startSector size : Nat} (dir : iter.dir = .rootFat12_16 startSector size)
      (small : iter.currentSectorIndex + 1 < 2 ^ 32) (inside : startSector + size < 2 ^ 32) :
      Upcoming fs iter (List.range' (iter.currentSectorIndex + 1)
        (startSector + size - (iter.currentSectorIndex + 1)))
  | chain {inode : DirectoryNode} {rest : List Nat} (dir : iter.dir = .normal inode)
      (linked : fs.fat.Linked (iter.currentCluster :: rest))
      (small : iter.currentSectorIndex < 2 ^ 32) :
      Upcoming fs iter (sectorsToBoundary fs.bootSector iter.currentSectorIndex ++
        rest.flatMap (clusterSectors fs.bootSector))

theorem wrap32_of_lt {n : Nat} (small : n < 2 ^ 32) : wrap32 n = n := Nat.mod_eq_of_lt small

theorem wrap32_lt (n : Nat) : wrap32 n < 2 ^ 32 := Nat.mod_lt n (Nat.two_pow_pos 32)

namespace FatBootSector
variable (b : FatBootSector)

theorem sectorsPerCluster_dvd : b.sectorsPerCluster ∣ 2 ^ 32 := by
  have sizes := b.sectorsPerCluster_mem
  have divides : ∀ k ∈ [1, 2, 4, 8, 16, 32, 64, 128], k ∣ 2 ^ 32 := by decide
  exact divides _ sizes

theorem wrap32_mod (n : Nat) : wrap32 n % b.sectorsPerCluster = n % b.sectorsPerCluster :=
  Nat.mod_mod_of_dvd n b.sectorsPerCluster_dvd

theorem succ_mod (n : Nat) : (n + 1) % b.sectorsPerCluster =
    if n % b.sectorsPerCluster + 1 = b.sectorsPerCluster then 0
    else n % b.sectorsPerCluster + 1 := by
  have below := Nat.mod_lt n b.sectorsPerCluster_pos
  have next : (n + 1) % b.sectorsPerCluster =
      (n % b.sectorsPerCluster + 1) % b.sectorsPerCluster := by
    rw [Nat.mod_add_mod]
  rw [next]
  split
  · rename_i full
    rw [full, Nat.mod_self]
  · exact Nat.mod_eq_of_lt (by omega)

/-- There are no sectors left before a boundary. -/
theorem sectorsToBoundary_of_boundary
    (boundary : (sector + 1) % b.sectorsPerCluster = 0) : sectorsToBoundary b sector = [] := by
  rw [b.succ_mod] at boundary
  have none : b.sectorsPerCluster - 1 - sector % b.sectorsPerCluster = 0 := by
    split at boundary
    · omega
    · cases boundary
  unfold sectorsToBoundary
  rw [none, List.range'_zero]

theorem sectorsToBoundary_of_not_boundary (inside : (sector + 1) % b.sectorsPerCluster ≠ 0) :
    sectorsToBoundary b sector = (sector + 1) :: sectorsToBoundary b (sector + 1) := by
  have below := Nat.mod_lt sector b.sectorsPerCluster_pos
  unfold sectorsToBoundary
  rw [b.succ_mod] at inside ⊢
  split at inside
  · exact absurd rfl inside
  · rename_i more
    rw [if_neg more]
    have count : b.sectorsPerCluster - 1 - sector % b.sectorsPerCluster =
        b.sectorsPerCluster - 1 - (sector % b.sectorsPerCluster + 1) + 1 := by omega
    rw [count, List.range'_succ]

theorem clusterSectors_eq (cluster : Nat) : clusterSectors b cluster =
    wrap32 (cluster * b.sectorsPerCluster) ::
      sectorsToBoundary b (wrap32 (cluster * b.sectorsPerCluster)) := by
  have pos := b.sectorsPerCluster_pos
  have count : b.sectorsPerCluster = b.sectorsPerCluster - 1 + 1 := by omega
  have start : wrap32 (cluster * b.sectorsPerCluster) % b.sectorsPerCluster = 0 := by
    rw [b.wrap32_mod, Nat.mul_mod_left]
  unfold clusterSectors sectorsToBoundary
  rw [start, Nat.sub_zero]
  generalize wrap32 (cluster * b.sectorsPerCluster) = first
  rw [← List.range'_succ, ← count]

end FatBootSector

/-! ## From one sector to the next -/

/-- The session has gone on from the sectors `later` to the first of them, which leaves the rest. -/
structure Entered (s t : DirSession) (later : List Nat) (sector : Nat) (rest : List Nat) :
    Prop where
  counts : served s.fs.disk.faultIn later = sector :: served t.fs.disk.faultIn rest
  volume : t.fs = s.fs.withFaultIn t.fs.disk.faultIn
  upcoming : Upcoming t.fs t.iter rest
  currentSector : t.iter.currentSector = s.fs.sectorBytes sector
  currentSectorIndex : t.iter.currentSectorIndex = sector
  atStart : t.iter.entryIndexInSector = 0
  clean : t.iter.currentSectorDirty = false

theorem flushCurrentSector_clean (clean : s.iter.currentSectorDirty = false) :
    flushCurrentSector s = .ok () s := by
  show (if s.iter.currentSectorDirty then _ else _ : DirM Unit) s = _
  rw [clean]
  rfl

section
variable {s : DirSession} {later : List Nat}

/-- The next sector is entered, if that is what the iterator goes to from there on. -/
theorem enterSector_spec (clean : s.iter.currentSectorDirty = false)
    (upcoming : ∀ fs data, fs.bootSector = s.fs.bootSector → fs.fat = s.fs.fat →
      Upcoming fs { s.iter with
        currentSector := data, currentSectorIndex := sector, entryIndexInSector := 0 } rest) :
    Meets (enterSector sector) s (fun _ t => Entered s t (sector :: rest) sector rest)
      (fun stop t => (∃ error, stop = .failure (.err error)) ∧
        t.iter.currentSectorDirty = false ∧ ∀ sectors, served s.fs.disk.faultIn sectors = []) := by
  have read := readSectorsNoCache_one s.fs sector
  apply meets_bind.mpr
  apply meets_onVolume.mpr
  unfold Meets
  generalize readSectorsNoCache sector 1 s.fs = result at read ⊢
  cases read with
  | read counts => exact ⟨counts rest, rfl, upcoming _ _ rfl rfl, rfl, rfl, rfl, clean⟩
  | refused none => exact ⟨⟨_, rfl⟩, clean, none⟩

/-- There is no sector to go to, or the first one of those that come has been entered. -/
def MovesOn (s : DirSession) (later : List Nat) (more : Bool) (t : DirSession) : Prop :=
  (more = false ∧ later = [] ∧ t = s) ∨
    (more = true ∧ ∃ sector rest, Entered s t later sector rest)

/-- The device refuses the sectors that come. -/
def Refused (s : DirSession) (later : List Nat) (stop : DirFailure) (t : DirSession) : Prop :=
  (∃ error, stop = .failure (.err error)) ∧ t.iter.currentSectorDirty = false ∧
    served s.fs.disk.faultIn later = []

/-- From an iterator that is at most in another cluster, the first of the sectors is entered. -/
theorem enterSector_movesOn {u : DirSession} (same : u.fs = s.fs)
    (clean : u.iter.currentSectorDirty = false)
    (goesOn : ∀ fs data, fs.bootSector = u.fs.bootSector → fs.fat = u.fs.fat →
      Upcoming fs { u.iter with
        currentSector := data, currentSectorIndex := sector, entryIndexInSector := 0 } rest) :
    Meets (do enterSector sector; pure true) u (MovesOn s (sector :: rest))
      (Refused s (sector :: rest)) := by
  apply meets_bind.mpr
  refine (enterSector_spec clean goesOn).mono ?_ ?_
  · intro _ t entered
    refine .inr ⟨rfl, sector, rest, ?_⟩
    obtain ⟨counts, volume, upcoming, data, index, start, clean⟩ := entered
    rw [same] at counts volume data
    exact ⟨counts, volume, upcoming, data, index, start, clean⟩
  · intro stop t failed
    exact ⟨failed.1, failed.2.1, by rw [← same]; exact failed.2.2 _⟩

/-- The iterator in the given cluster. -/
def DirSession.inCluster (s : DirSession) (cluster : Nat) : DirSession :=
  { s with iter := { s.iter with currentCluster := cluster } }

/-- `next_sector` says that there are no more sectors, or goes to enter the first of those that
come. -/
theorem nextSector_goes (clean : s.iter.currentSectorDirty = false)
    (upcoming : Upcoming s.fs s.iter later) :
    (later = [] ∧ nextSector s = .ok false s) ∨
      ∃ sector rest cluster, later = sector :: rest ∧
        nextSector s = (do enterSector sector; pure true : DirM Bool) (s.inCluster cluster) ∧
        ∀ fs data, fs.bootSector = s.fs.bootSector → fs.fat = s.fs.fat →
          Upcoming fs { s.iter with
            currentCluster := cluster, currentSector := data, currentSectorIndex := sector,
            entryIndexInSector := 0 } rest := by
  have start : nextSector s = (flushCurrentSector >>= fun _ => _) s := rfl
  rw [bind_of_ok (flushCurrentSector_clean clean), get_bind] at start
  cases upcoming with
  | @root startSector size dir small inside =>
    simp only [dir, wrap32_of_lt small, wrap32_of_lt inside] at start
    split at start
    · rename_i ends
      refine .inl ⟨?_, start⟩
      rw [Nat.sub_eq_zero_of_le ends, List.range'_zero]
    · have count : startSector + size - (s.iter.currentSectorIndex + 1) =
          startSector + size - (s.iter.currentSectorIndex + 1 + 1) + 1 := by omega
      rw [count]
      refine .inr ⟨_, _, s.iter.currentCluster, rfl, start, ?_⟩
      intro fs data _ _
      exact .root dir (by show s.iter.currentSectorIndex + 1 + 1 < 2 ^ 32; omega) inside
  | @chain inode rest dir linked small =>
    simp only [dir, s.fs.bootSector.wrap32_mod] at start
    split at start
    · rename_i boundary
      rw [s.fs.bootSector.sectorsToBoundary_of_boundary boundary]
      have next : onVolume (orPanic (s.fs.fat.nextCluster s.iter.currentCluster)) s =
          .ok (.ok rest.head?) s := by
        rw [linked.nextCluster_head]
        rfl
      rw [bind_of_ok next] at start
      cases rest with
      | nil => exact .inl ⟨rfl, start⟩
      | cons cluster rest =>
        rw [List.flatMap_cons, s.fs.bootSector.clusterSectors_eq]
        refine .inr ⟨_, _, cluster, rfl, start, ?_⟩
        intro fs data boot fat
        rw [← boot]
        exact .chain dir (fat ▸ linked.tail) (wrap32_lt _)
    · rename_i inside
      have small' : s.iter.currentSectorIndex + 1 < 2 ^ 32 := by
        have : s.iter.currentSectorIndex + 1 ≠ 2 ^ 32 := by
          intro last
          apply inside
          rw [last]
          exact Nat.mod_eq_zero_of_dvd s.fs.bootSector.sectorsPerCluster_dvd
        omega
      rw [wrap32_of_lt small'] at start
      rw [s.fs.bootSector.sectorsToBoundary_of_not_boundary inside]
      refine .inr ⟨_, _, s.iter.currentCluster, rfl, start, ?_⟩
      intro fs data boot fat
      rw [← boot]
      exact .chain dir (fat ▸ linked) small'

/-- `next_sector` enters the first of the sectors that come, if there is one that is served. -/
theorem nextSector_spec (clean : s.iter.currentSectorDirty = false)
    (upcoming : Upcoming s.fs s.iter later) :
    Meets nextSector s (MovesOn s later) (Refused s later) := by
  cases nextSector_goes clean upcoming with
  | inl finished =>
    apply (meets_of_eq_ok finished.2).mpr
    exact .inl ⟨rfl, finished.1, rfl⟩
  | inr goes =>
    obtain ⟨sector, rest, cluster, rfl, run, goesOn⟩ := goes
    unfold Meets
    rw [run]
    have same : (s.inCluster cluster).fs = s.fs := rfl
    exact enterSector_movesOn same clean goesOn

end

/-! ## Slots -/

/-- A slot of 32 bytes, with its sector and its index there. -/
structure Slot where
  sector : Nat
  index : Nat
  bytes : List UInt8
  deriving DecidableEq

/-- The slots of a sector. -/
def slotsOf (sector : Nat) (data : List UInt8) : List Slot :=
  (List.range (data.length / directoryEntrySize)).map fun index =>
    ⟨sector, index, (data.drop (index * directoryEntrySize)).take directoryEntrySize⟩

/-- The slots of those of the sectors that are served. -/
def FatFilesystem.slotsIn (sectors : List Nat) : List Slot :=
  (served fs.disk.faultIn sectors).flatMap fun sector => slotsOf sector (fs.sectorBytes sector)

theorem length_slotsOf (sector : Nat) (data : List UInt8) :
    (slotsOf sector data).length = data.length / directoryEntrySize := by
  rw [slotsOf, List.length_map, List.length_range]

/-- The slots from an index on are those at the index and after it. -/
theorem drop_slotsOf {index : Nat} {data : List UInt8}
    (inside : index < data.length / directoryEntrySize) :
    (slotsOf sector data).drop index =
      ⟨sector, index, (data.drop (index * directoryEntrySize)).take directoryEntrySize⟩ ::
        (slotsOf sector data).drop (index + 1) := by
  have bound : index < (slotsOf sector data).length := by
    rw [length_slotsOf]
    exact inside
  rw [List.drop_eq_getElem_cons bound]
  congr 1
  simp only [slotsOf, List.getElem_map, List.getElem_range]

/-- The slots that the iterator has before it. -/
structure Ahead (s : DirSession) (slots : List Slot) : Prop where
  clean : s.iter.currentSectorDirty = false
  length : s.iter.currentSector.length = s.fs.bootSector.bytesPerSector
  ahead : ∃ later, Upcoming s.fs s.iter later ∧
    slots = (slotsOf s.iter.currentSectorIndex s.iter.currentSector).drop
      s.iter.entryIndexInSector ++ s.fs.slotsIn later

/-- The iterator has just given the slot and has the others before it. -/
structure At (s : DirSession) (slot : Slot) (rest : List Slot) : Prop where
  ahead : Ahead s rest
  sector : s.iter.currentSectorIndex = slot.sector
  index : s.iter.entryIndexInSector = slot.index + 1

theorem Entered.slotsIn (entered : Entered s t later sector rest) :
    s.fs.slotsIn later = slotsOf sector (s.fs.sectorBytes sector) ++ t.fs.slotsIn rest := by
  unfold FatFilesystem.slotsIn
  rw [entered.counts, entered.volume]
  rfl

theorem length_sectorBytes (sector : Nat) :
    (fs.sectorBytes sector).length = fs.bootSector.bytesPerSector := length_readBytes _ _ _

theorem Entered.ahead (entered : Entered s t later sector rest) : Ahead t (s.fs.slotsIn later) where
  clean := entered.clean
  length := by
    rw [entered.currentSector, length_sectorBytes, entered.volume]
    rfl
  ahead := by
    refine ⟨rest, entered.upcoming, ?_⟩
    rw [entered.slotsIn, entered.currentSector, entered.currentSectorIndex, entered.atStart,
      List.drop_zero]

section
variable {s : DirSession} {slots : List Slot}

/-- `get_next_entry` in the current sector. -/
theorem getNextEntry_in_sector
    (inside : s.iter.entryIndexInSector < s.iter.currentSector.length / directoryEntrySize)
    (turns : Nat) :
    getNextEntry (turns + 1) s =
      .ok ((s.iter.currentSector.drop (s.iter.entryIndexInSector * directoryEntrySize)).take
          directoryEntrySize)
        { s with iter := { s.iter with entryIndexInSector := s.iter.entryIndexInSector + 1 } } := by
  have fits : s.iter.entryIndexInSector * directoryEntrySize + directoryEntrySize ≤
      s.iter.currentSector.length := by
    have := (Nat.le_div_iff_mul_le (show 0 < directoryEntrySize by decide)).mp inside
    rw [Nat.succ_mul] at this
    exact this
  have taken : onVolume (orPanic (slice? s.iter.currentSector
      (s.iter.entryIndexInSector * directoryEntrySize) directoryEntrySize)) s =
      .ok ((s.iter.currentSector.drop (s.iter.entryIndexInSector * directoryEntrySize)).take
        directoryEntrySize) s := by
    rw [slice?_eq_some_iff.mpr ⟨fits, rfl⟩]
    rfl
  unfold getNextEntry
  rw [get_bind, if_neg (not_lt.mpr fits), bind_of_ok taken]
  rfl

/-- `get_next_entry` at the end of the current sector. -/
theorem getNextEntry_past_sector
    (outside : ¬ s.iter.entryIndexInSector < s.iter.currentSector.length / directoryEntrySize)
    (turns : Nat) :
    getNextEntry (turns + 1) s =
      (do if ← nextSector then getNextEntry turns
          else throw (.failure (.err .fileNotFound)) : DirM (List UInt8)) s := by
  have short : s.iter.currentSector.length <
      s.iter.entryIndexInSector * directoryEntrySize + directoryEntrySize := by
    have := (Nat.div_lt_iff_lt_mul (show 0 < directoryEntrySize by decide)).mp
      (Nat.lt_succ_of_le (not_lt.mp outside))
    rw [Nat.succ_mul] at this
    exact this
  rw [getNextEntry, get_bind, if_pos short]

/-- An entry in the current sector is the first of the slots that come. -/
theorem Ahead.getNextEntry_inside (ahead : Ahead s slots)
    (inside : s.iter.entryIndexInSector < s.iter.currentSector.length / directoryEntrySize)
    (turns : Nat) : ∃ slot rest t, slots = slot :: rest ∧
      getNextEntry (turns + 1) s = .ok slot.bytes t ∧ At t slot rest := by
  obtain ⟨clean, length, later, upcoming, slotsEq⟩ := ahead
  rw [drop_slotsOf inside] at slotsEq
  refine ⟨_, _, _, slotsEq, getNextEntry_in_sector inside turns, ?_⟩
  refine ⟨⟨clean, length, later, ?_, rfl⟩, rfl, rfl⟩
  cases upcoming with
  | root dir small inside => exact .root dir small inside
  | chain dir linked small => exact .chain dir linked small

/-- There is a slot in every sector. -/
theorem one_le_slots (b : FatBootSector) : 0 < b.bytesPerSector / directoryEntrySize := by
  have sizes := b.bytesPerSector_mem
  have slots : ∀ k ∈ [512, 1024, 2048, 4096], 0 < k / directoryEntrySize := by decide
  exact slots _ sizes

theorem Entered.index_lt {later : List Nat} (entered : Entered s t later sector rest) :
    t.iter.entryIndexInSector < t.iter.currentSector.length / directoryEntrySize := by
  rw [entered.atStart, entered.ahead.length]
  exact one_le_slots _

/-- At the end of a sector the entry is looked for in the next one. -/
theorem Ahead.getNextEntry_outside (ahead : Ahead s slots)
    (outside : ¬ s.iter.entryIndexInSector < s.iter.currentSector.length / directoryEntrySize)
    (turns : Nat) :
    (slots = [] ∧ ∃ error t, getNextEntry (turns + 2) s = .error (.failure (.err error)) t ∧
      t.iter.currentSectorDirty = false) ∨
    ∃ slot rest t, slots = slot :: rest ∧ getNextEntry (turns + 2) s = .ok slot.bytes t ∧
      At t slot rest := by
  obtain ⟨clean, length, later, upcoming, slotsEq⟩ := ahead
  rw [List.drop_of_length_le (by rw [length_slotsOf]; omega), List.nil_append] at slotsEq
  have step := getNextEntry_past_sector outside (turns + 1)
  have moved := nextSector_spec clean upcoming
  cases run : nextSector s with
  | error stop t =>
    obtain ⟨⟨error, rfl⟩, stillClean, none⟩ := moved.of_error run
    refine .inl ⟨?_, error, t, ?_, stillClean⟩
    · rw [slotsEq, FatFilesystem.slotsIn, none]
      rfl
    · rw [step, bind_of_error run]
  | ok more t =>
    rw [bind_of_ok run] at step
    cases moved.of_ok run with
    | inl finished =>
      obtain ⟨rfl, rfl, rfl⟩ := finished
      refine .inl ⟨?_, .fileNotFound, t, step, clean⟩
      rw [slotsEq, FatFilesystem.slotsIn, served_nil]
      rfl
    | inr entered =>
      obtain ⟨rfl, sector, rest, entered⟩ := entered
      have ahead := entered.ahead
      rw [← slotsEq] at ahead
      rw [step]
      exact .inr (ahead.getNextEntry_inside entered.index_lt turns)

/-- `get_next_entry` fails at the end of the slots. -/
theorem Ahead.okOnly_getNextEntry_nil (ahead : Ahead s []) (turns : Nat) :
    ∃ t, okOnly (getNextEntry (turns + 2)) s = .ok none t ∧
      t.iter.currentSectorDirty = false := by
  by_cases inside :
      s.iter.entryIndexInSector < s.iter.currentSector.length / directoryEntrySize
  · obtain ⟨slot, rest, t, slots, -⟩ := ahead.getNextEntry_inside inside (turns + 1)
    cases slots
  · cases ahead.getNextEntry_outside inside turns with
    | inl failed =>
      obtain ⟨-, error, t, run, clean⟩ := failed
      exact ⟨t, okOnly_err run, clean⟩
    | inr given =>
      obtain ⟨slot, rest, t, slots, -⟩ := given
      cases slots

/-- `get_next_entry` gives the next slot. -/
theorem Ahead.okOnly_getNextEntry_cons {slot : Slot} {rest : List Slot}
    (ahead : Ahead s (slot :: rest)) (turns : Nat) :
    ∃ t, okOnly (getNextEntry (turns + 2)) s = .ok (some slot.bytes) t ∧ At t slot rest := by
  by_cases inside :
      s.iter.entryIndexInSector < s.iter.currentSector.length / directoryEntrySize
  · obtain ⟨slot, rest, t, slots, run, given⟩ := ahead.getNextEntry_inside inside (turns + 1)
    cases slots
    exact ⟨t, okOnly_ok run, given⟩
  · cases ahead.getNextEntry_outside inside turns with
    | inl failed => cases failed.1
    | inr found =>
      obtain ⟨slot, rest, t, slots, run, given⟩ := found
      cases slots
      exact ⟨t, okOnly_ok run, given⟩

end

end Emerald.Fs
