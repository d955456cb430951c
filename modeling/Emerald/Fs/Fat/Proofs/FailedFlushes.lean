
import Emerald.Fs.Fat.Proofs.Coherence
import Emerald.Fs.Fat.Proofs.FailedResizes

/-!
# Flushes that fail

`flush_cluster` moves the data and the dirty range of a cluster out of the cache before it writes
the table, the entry of the file and the data, and puts the data back when all of them are written.
A flush that the device interrupts leaves an empty cluster that is not marked.
-/

namespace Emerald.Fs

open FatFilesystem

/-- A flush that fails leaves the cached cluster as it was, with its data and its mark. -/
def KeepsUnflushed (s : Session) : Prop :=
  ∀ error t, flushFile s = .error (.err error) t →
    t.fs.clusterCache.get? s.accessHelper.currentCluster =
      s.fs.clusterCache.get? s.accessHelper.currentCluster

/-- The device serves the given number of accesses. -/
def Disk.Serves (disk : Disk) (count : Nat) : Prop :=
  ∀ left error, disk.faultIn = some (left, error) → count ≤ left

theorem Disk.serves_iff {disk : Disk} {count : Nat} :
    disk.Serves count ↔ ∃ faultIn, afterAccesses count disk.faultIn = .ok faultIn := by
  unfold Disk.Serves
  cases disk.faultIn with
  | none => exact ⟨fun _ => ⟨none, rfl⟩, nofun⟩
  | some fault =>
    obtain ⟨left, error⟩ := fault
    unfold afterAccesses
    dsimp only
    constructor
    · intro serves
      exact ⟨_, if_pos (serves left error rfl)⟩
    · intro ⟨faultIn, served⟩ _ _ same
      cases same
      by_contra refused
      rw [if_neg refused] at served
      cases served

/-- A handle on a volume in order whose cluster is cached and has been written. -/
structure Unflushed (s : Session) (entry : ClusterCacheEntry) (range : Nat × Nat) : Prop where
  table : TableOk s.fs
  node : DirEntryOk s.fs s.inode
  apart : EntryApart s.fs.bootSector s.inode s.accessHelper.currentCluster
  cached : s.fs.clusterCache.get? s.accessHelper.currentCluster = some entry
  ok : EntryOk s.fs s.accessHelper.currentCluster entry
  dirty : entry.dirtyRange = some range

section
variable {fs : FatFilesystem}

/-- The cache while a dirty cluster is written. -/
def emptied (fs : FatFilesystem) (cluster : Nat) (entry : ClusterCacheEntry) : FatFilesystem :=
  { fs with clusterCache :=
      fs.clusterCache.insert cluster { entry with dirtyRange := none, data := [] } }

theorem flushCluster_dirty (inode : FileNode) {cluster : Nat} {entry : ClusterCacheEntry}
    (cached : fs.clusterCache.get? cluster = some entry) {range : Nat × Nat}
    (dirty : entry.dirtyRange = some range) :
    flushCluster inode cluster fs =
      (flushClusterDirtyRangeFile inode entry.data entry.cluster range >>= fun _ =>
        modify fun fs => { fs with
          clusterCache := fs.clusterCache.insert cluster { entry with dirtyRange := none } })
        (emptied fs cluster entry) := by
  unfold flushCluster
  rw [get_bind, cached]
  dsimp only
  rw [dirty]
  rfl

end

section
variable {s : Session} {entry : ClusterCacheEntry} {range : Nat × Nat}

/-- The flush writes the table, the entry of the file and the data, with the cluster out of the
cache. -/
theorem Unflushed.accesses (unflushed : Unflushed s entry range) :
    ∃ t, MakesAccesses
      (flushClusterDirtyRangeFile s.inode entry.data s.accessHelper.currentCluster range)
      (emptied s.fs s.accessHelper.currentCluster entry) (s.fs.flushAccesses s.inode) () t := by
  obtain ⟨⟨⟨sectorSize, length, bitmap, fits⟩, marked, bits⟩, node, apart, -, ok, dirty⟩ :=
    unflushed
  generalize idle : (emptied s.fs s.accessHelper.currentCluster entry).withFaultIn none = fs
  have table : TableOk fs := by
    subst idle
    exact ⟨⟨sectorSize, length, bitmap, fits⟩, marked, bits⟩
  have same : fs.bootSector = s.fs.bootSector := by
    subst idle
    rfl
  have working : fs.disk.faultIn = none := by
    subst idle
    rfl
  obtain ⟨t, accesses, -⟩ := accesses_flushClusterDirtyRangeFile working table
    (node.congr same (by subst idle; rfl)) (same ▸ apart)
    (ok.congr same (by subst idle; exact fun _ _ => rfl)) dirty
  subst idle
  exact ⟨t, accesses.returns, accesses.stops⟩

/-- A flush keeps what it cannot write exactly when the device serves all that it writes. -/
theorem keepsUnflushed_iff (unflushed : Unflushed s entry range) :
    KeepsUnflushed s ↔ s.fs.disk.Serves (s.fs.flushAccesses s.inode) := by
  obtain ⟨t, accesses⟩ := unflushed.accesses
  have flush := flushCluster_dirty s.inode unflushed.cached unflushed.dirty
  rw [unflushed.ok.number] at flush
  rw [Disk.serves_iff]
  constructor
  · intro keeps
    cases served : afterAccesses (s.fs.flushAccesses s.inode) s.fs.disk.faultIn with
    | ok faultIn => exact ⟨faultIn, rfl⟩
    | error e =>
      obtain ⟨sector, u, stopped⟩ := accesses.stops _ e served
      -- the cache is as the flush left it before the first write
      have cache := (keepsCache_flushClusterDirtyRangeFile _ _ _ _ _).of_error stopped
      have failed : flushFile s = .error (.err (.diskReadError sector e)) { s with fs := u } :=
        onFs_error (flush.trans (bind_of_error stopped))
      have kept := keeps _ _ failed
      rw [unflushed.cached, cache.1] at kept
      have lost := (SortedMap.get?_insert_self ..).symm.trans kept
      have range := congrArg ClusterCacheEntry.dirtyRange (Option.some.inj lost)
      rw [unflushed.dirty] at range
      cases range
  · intro ⟨faultIn, served⟩ error u failed
    have written := accesses.returns _ faultIn served
    have returned : flushFile s = .ok () _ := onFs_ok (flush.trans (bind_of_ok written))
    cases returned.symm.trans failed

end

/-! ### Examples -/

/-- The cluster 2 with one byte written. -/
def writtenEntry : ClusterCacheEntry := ⟨2, 1, some (0, 1), 7 :: List.replicate 511 0⟩

/-- A handle that has written a byte, with the fault of the device that is to come. -/
def writtenFile (faultIn : FaultIn) : Session where
  fs := { smallMounted.withFaultIn faultIn with
    clusterCache := SortedMap.empty.insert 2 writtenEntry }
  inode := smallFile.inode
  accessHelper := ⟨2, 0⟩

theorem unflushed_writtenFile (faultIn : FaultIn) :
    Unflushed (writtenFile faultIn) writtenEntry (0, 1) := by
  have mem : smallFile ∈ [smallFile] := List.mem_singleton_self _
  have small := wellFormed_small
  obtain ⟨⟨⟨sectorSize, length, bitmap, fits⟩, marked, bits⟩, -⟩ :=
    mount_tableOk (show mount 0 blankBoot smallDisk = .ok () smallMounted from rfl)
  have size : blankBoot.bytesPerCluster = 512 := by decide
  have cluster : blankBoot.clusterAddr 2 = 1536 := by decide
  refine ⟨⟨⟨sectorSize, length, bitmap, fits⟩, marked, bits⟩, ?_, ?_, rfl, ?_, rfl⟩
  · exact (small.entry _ mem).congr rfl rfl
  · exact ⟨small.outside _ mem, small.apart _ mem _ mem 2 (List.mem_singleton_self _)⟩
  · refine ⟨small.data _ mem 2 (List.mem_singleton_self _), rfl, Nat.one_pos, ?_, ?_, ?_⟩
    · show (7 :: List.replicate 511 (0 : UInt8)).length = blankBoot.bytesPerCluster
      rw [size, List.length_cons, List.length_replicate]
    · intro range dirty
      cases dirty
      exact ⟨Nat.one_pos, show 1 ≤ blankBoot.bytesPerCluster by decide⟩
    · intro offset inside clean
      have inside : offset < 512 := size ▸ inside
      cases offset with
      | zero =>
        have outside := clean _ rfl
        omega
      | succ offset =>
        have blank : smallDisk.bytes (blankBoot.clusterAddr 2 + (offset + 1)) = 0 := by
          unfold smallDisk
          rw [cluster]
          simp only [show ∀ a < 1536, ¬ 1536 + (offset + 1) = a by omega, Nat.reduceAdd,
            Nat.reduceLT, if_false]
        exact (List.getElem?_replicate_of_lt (by omega)).trans (congrArg some blank.symm)

/-- A device that fails after the two accesses of the flush. -/
theorem keepsUnflushed_writtenFile : KeepsUnflushed (writtenFile (some (2, .deviceError))) := by
  refine (keepsUnflushed_iff (unflushed_writtenFile _)).mpr ?_
  intro left error fault
  cases fault
  decide +kernel

/-- The first byte of the cluster on the disk after a flush that the device serves. -/
def byteFlushed (s : Session) : Option UInt8 :=
  match flushFile { s with fs := s.fs.withFaultIn none } with
  | .ok () t => some (t.fs.disk.bytes (t.fs.bootSector.clusterAddr 2))
  | .error _ _ => none

/-- What a flush fails with, the cluster in the cache after it, and what the next flush writes. -/
def failedFlush :
    EStateM.Result Failure Session Unit →
      Option (FileSystemError × Option ClusterCacheEntry × Option UInt8)
  | .error (.err error) t => some (error, t.fs.clusterCache.get? 2, byteFlushed t)
  | _ => none

/-- The device refuses the sector of the data. The byte that was written is not in the cache any
more, and the next flush does not write it. -/
theorem failed_flush_loses_data :
    writtenEntry.data.head? = some 7 ∧
      failedFlush (flushFile (writtenFile (some (1, .deviceError)))) =
        some (.diskReadError 3 .deviceError, some ⟨2, 1, none, []⟩, some 0) ∧
      ¬ KeepsUnflushed (writtenFile (some (1, .deviceError))) := by
  have failed : failedFlush (flushFile (writtenFile (some (1, .deviceError)))) =
      some (.diskReadError 3 .deviceError, some ⟨2, 1, none, []⟩, some 0) := by
    decide +kernel
  refine ⟨rfl, failed, fun keeps => ?_⟩
  cases run : flushFile (writtenFile (some (1, .deviceError))) with
  | ok _ t =>
    rw [run] at failed
    cases failed
  | error e t =>
    rw [run] at failed
    cases e with
    | panic why => cases failed
    | err error =>
      have kept := keeps error t run
      have lost := congrArg (fun seen => seen.2.1) (Option.some.inj failed)
      have range := congrArg (Option.map ClusterCacheEntry.dirtyRange) (lost.symm.trans kept)
      cases range

end Emerald.Fs
