
import Emerald.Fs.Fat.Proofs.Sectors
import Emerald.Fs.Fat.Files

/-!
# What the operations do to the cluster cache

Every operation on the table and on the sectors leaves the cache alone; `lock_cluster` and
`release_cluster` change the count of one cluster. Along with this the lemmas follow the fault of
the device: an operation that returns has not met it, and one that stops on the disk has.
-/

namespace Emerald.Fs

/-- Between the two states the device has failed no access. -/
def Faultless (fs t : FatFilesystem) : Prop := fs.disk.faultIn = none ↔ t.disk.faultIn = none

variable (fs : FatFilesystem) {cache : ClusterCache} {cluster : Nat}

theorem Faultless.refl : Faultless fs fs := Iff.rfl

theorem Faultless.trans {fs t u : FatFilesystem} (first : Faultless fs t) (second : Faultless t u) :
    Faultless fs u :=
  Iff.trans first second

/-- The ways an access of the disk stops: a panic, or the fault of the device. -/
def DiskStop (e : Failure) : Prop :=
  e = .panic .assertion ∨ (e.IsDisk ∧ fs.disk.faultIn ≠ none)

theorem DiskStop.of_faultless {fs t : FatFilesystem} {e : Failure} (same : Faultless fs t)
    (stop : DiskStop t e) : DiskStop fs e := by
  rcases stop with panics | ⟨disk, faulty⟩
  · exact .inl panics
  · exact .inr ⟨disk, fun healthy => faulty (same.mp healthy)⟩

/-- The program leaves the cache alone, and stops only on the disk. -/
def KeepsCache {α : Type} (p : FatM α) (fs : FatFilesystem) : Prop :=
  Meets p fs (fun _ t => t.clusterCache = fs.clusterCache ∧ Faultless fs t)
    (fun e t => t.clusterCache = fs.clusterCache ∧ DiskStop fs e)

section
variable {α β : Type} {fs : FatFilesystem}

theorem KeepsCache.bind {p : FatM α} {f : α → FatM β} (first : KeepsCache p fs)
    (second : ∀ a t, KeepsCache (f a) t) : KeepsCache (p >>= f) fs := by
  refine Meets.bind _ first ?_
  rintro a t ⟨cache, same⟩
  refine (second a t).mono ?_ ?_
  · rintro b u ⟨cache', same'⟩
    exact ⟨cache'.trans cache, same.trans same'⟩
  · rintro e u ⟨cache', stop⟩
    exact ⟨cache'.trans cache, stop.of_faultless same⟩

theorem KeepsCache.get {f : FatFilesystem → FatM β} (rest : KeepsCache (f fs) fs) :
    KeepsCache (MonadState.get >>= f) fs := rest

theorem keepsCache_pure (a : α) : KeepsCache (pure a : FatM α) fs := ⟨rfl, Faultless.refl fs⟩

theorem keepsCache_modify {g : FatFilesystem → FatFilesystem}
    (cache : (g fs).clusterCache = fs.clusterCache) (disk : (g fs).disk.faultIn = fs.disk.faultIn) :
    KeepsCache (modify g) fs :=
  ⟨cache, by show _ ↔ _; rw [disk]⟩

theorem keepsCache_assertThat (condition : Bool) : KeepsCache (assertThat condition) fs := by
  cases condition with
  | true => exact ⟨rfl, Faultless.refl fs⟩
  | false => exact ⟨rfl, .inl rfl⟩

theorem keepsCache_orPanic (value : Option α) : KeepsCache (orPanic value) fs := by
  cases value with
  | some a => exact ⟨rfl, Faultless.refl fs⟩
  | none => exact ⟨rfl, .inl rfl⟩

theorem keepsCache_accessDisk (startSector : Nat) : KeepsCache (accessDisk startSector) fs := by
  unfold KeepsCache Meets accessDisk Faultless DiskStop
  cases fault : fs.disk.faultIn with
  | none => simp [fault]
  | some rest =>
    obtain ⟨left, error⟩ := rest
    cases left with
    | zero => exact ⟨rfl, .inr ⟨⟨_, _, rfl⟩, by simp⟩⟩
    | succ left => simp

end

section
variable (fs : FatFilesystem)

theorem keepsCache_readSectorsNoCache (startSector count : Nat) :
    KeepsCache (readSectorsNoCache startSector count) fs := by
  unfold readSectorsNoCache
  split
  · exact keepsCache_pure _
  · apply KeepsCache.get
    apply KeepsCache.bind (keepsCache_assertThat _)
    intro _ t
    apply KeepsCache.bind (keepsCache_accessDisk _)
    intro _ u
    exact KeepsCache.get (keepsCache_pure _)

theorem keepsCache_writeSectors (startSector : Nat) (data : List UInt8) :
    KeepsCache (writeSectors startSector data) fs := by
  unfold writeSectors
  split
  · exact keepsCache_pure _
  · apply KeepsCache.get
    apply KeepsCache.bind (keepsCache_assertThat _)
    intro _ t
    apply KeepsCache.bind (keepsCache_accessDisk _)
    intro _ u
    exact keepsCache_modify rfl rfl

theorem keepsCache_writeFatSectors (sectors : List Nat) :
    KeepsCache (writeFatSectors sectors) fs := by
  induction sectors generalizing fs with
  | nil => exact keepsCache_pure _
  | cons sector rest ih =>
    apply KeepsCache.get
    apply KeepsCache.bind (keepsCache_orPanic _)
    intro data t
    apply KeepsCache.get
    apply KeepsCache.bind (keepsCache_writeSectors _ _ _)
    intro _ u
    exact ih u

theorem keepsCache_flushFat : KeepsCache flushFat fs := by
  apply KeepsCache.get
  apply KeepsCache.bind (keepsCache_writeFatSectors _ _)
  intro _ t
  exact keepsCache_modify rfl rfl

theorem keepsCache_updateDirectoryEntry (inode : FileNode) (update : List UInt8 → List UInt8) :
    KeepsCache (updateDirectoryEntry inode update) fs := by
  apply KeepsCache.bind (keepsCache_readSectorsNoCache _ _ _)
  intro sector t
  apply KeepsCache.bind (keepsCache_orPanic _)
  intro entry u
  apply KeepsCache.bind (keepsCache_assertThat _)
  intro _ v
  apply KeepsCache.bind (keepsCache_assertThat _)
  intro _ w
  split
  · exact keepsCache_writeSectors _ _ _
  · exact keepsCache_pure _

theorem keepsCache_flushClusterDirtyRange (data : List UInt8) (clusterNum : Nat)
    (dirtyRange : Nat × Nat) :
    KeepsCache (flushClusterDirtyRange data clusterNum dirtyRange) fs := by
  apply KeepsCache.get
  apply KeepsCache.bind (keepsCache_assertThat _)
  intro _ t
  apply KeepsCache.bind (keepsCache_assertThat _)
  intro _ u
  apply KeepsCache.bind (keepsCache_assertThat _)
  intro _ v
  apply KeepsCache.bind (keepsCache_orPanic _)
  intro dirty w
  exact keepsCache_writeSectors _ _ _

theorem keepsCache_flushClusterDirtyRangeFile (inode : FileNode) (data : List UInt8)
    (clusterNum : Nat) (dirtyRange : Nat × Nat) :
    KeepsCache (flushClusterDirtyRangeFile inode data clusterNum dirtyRange) fs := by
  apply KeepsCache.bind (keepsCache_flushFat _)
  intro _ t
  apply KeepsCache.bind (keepsCache_updateDirectoryEntry _ _ _)
  intro _ u
  exact keepsCache_flushClusterDirtyRange _ _ _ _

theorem keepsCache_flushReleased (inode : FileNode) (entry : ClusterCacheEntry) :
    KeepsCache (flushReleased inode entry) fs := by
  unfold flushReleased
  split
  · exact keepsCache_pure _
  · exact keepsCache_flushClusterDirtyRangeFile _ _ _ _ _

end

/-! ## Counts -/

/-- The reference count of a cluster, if it is cached. -/
def ClusterCache.counts (cache : ClusterCache) (cluster : Nat) : Option Nat :=
  (SortedMap.get? cache cluster).map ClusterCacheEntry.referenceCount

theorem ClusterCache.counts_insert (cache : ClusterCache) (cluster c : Nat)
    (entry : ClusterCacheEntry) : ClusterCache.counts (cache.insert cluster entry) c =
      if c = cluster then some entry.referenceCount else cache.counts c := by
  unfold counts
  rw [SortedMap.get?_insert]
  split <;> rfl

/-- The count of a cluster after one of its users is gone. -/
def countAfterRelease (count : Option Nat) : Option Nat :=
  count.bind fun n => if n - 1 = 0 then none else some (n - 1)

theorem ClusterCache.releaseCluster_of_none (absent : SortedMap.get? cache cluster = none) :
    cache.releaseCluster cluster = (none, cache) := by
  unfold releaseCluster
  rw [absent]

theorem ClusterCache.releaseCluster_of_some
    {entry : ClusterCacheEntry} (found : SortedMap.get? cache cluster = some entry) :
    cache.releaseCluster cluster =
      if entry.referenceCount - 1 = 0 then
        (some { entry with referenceCount := entry.referenceCount - 1 }, cache.erase cluster)
      else
        (none, cache.insert cluster { entry with referenceCount := entry.referenceCount - 1 }) := by
  unfold releaseCluster
  rw [found]

theorem ClusterCache.counts_releaseCluster (cache : ClusterCache) (cluster c : Nat) :
    ClusterCache.counts (cache.releaseCluster cluster).2 c =
      if c = cluster then countAfterRelease (cache.counts cluster) else cache.counts c := by
  cases found : SortedMap.get? cache cluster with
  | none =>
    have absent : cache.counts cluster = none := by simp [counts, found]
    rw [releaseCluster_of_none found, absent]
    by_cases same : c = cluster
    · rw [if_pos same, same, absent]
      rfl
    · rw [if_neg same]
  | some entry =>
    have count : cache.counts cluster = some entry.referenceCount := by simp [counts, found]
    rw [releaseCluster_of_some found, count]
    dsimp only [countAfterRelease, Option.bind_some]
    by_cases last : entry.referenceCount - 1 = 0
    · rw [if_pos last, if_pos last]
      unfold counts
      rw [SortedMap.get?_erase]
      split <;> rfl
    · rw [if_neg last, if_neg last, counts_insert]

/-- `lock_cluster` adds one user to the cluster. It can only stop on the read of a cluster that is
not cached. -/
theorem lockCluster_meets (cluster : Nat) : Meets (lockCluster cluster) fs
      (fun _ t => Faultless fs t ∧ ∀ c, t.clusterCache.counts c =
        if c = cluster then some ((fs.clusterCache.counts cluster).getD 0 + 1)
        else fs.clusterCache.counts c)
      (fun e t => t.clusterCache = fs.clusterCache ∧ DiskStop fs e ∧
        fs.clusterCache.counts cluster = none) := by
  unfold lockCluster
  apply meets_get_bind.mpr
  unfold ClusterCache.tryGetClusterLocked
  cases found : SortedMap.get? fs.clusterCache cluster with
  | some entry =>
    have count : fs.clusterCache.counts cluster = some entry.referenceCount := by
      simp [ClusterCache.counts, found]
    refine ⟨Faultless.refl _, fun c => ?_⟩
    rw [count]
    exact ClusterCache.counts_insert _ _ _ _
  | none =>
    have absent : fs.clusterCache.counts cluster = none := by simp [ClusterCache.counts, found]
    apply Meets.bind _ ((keepsCache_readSectorsNoCache _ _ _).mono (fun _ _ done => done) ?_)
    · rintro data t ⟨cache, same⟩
      refine ⟨same, fun c => ?_⟩
      rw [absent, ← cache]
      exact ClusterCache.counts_insert _ _ _ _
    · rintro e t ⟨cache, stop⟩
      exact ⟨cache, stop, absent⟩

/-- `t` has one user of the cluster less in its cache than `fs`. -/
def Released (cluster : Nat) (t : FatFilesystem) : Prop :=
  ∀ c, t.clusterCache.counts c =
    if c = cluster then countAfterRelease (fs.clusterCache.counts cluster)
    else fs.clusterCache.counts c

/-- `release_cluster` takes one user from the cluster. It can only stop on the flush of a cluster
that has left the cache. -/
theorem releaseCluster_meets (inode : FileNode) (cluster : Nat) :
    Meets (releaseCluster inode cluster) fs
      (fun _ t => Faultless fs t ∧ Released fs cluster t)
      (fun e t => DiskStop fs e ∧ Released fs cluster t ∧
        t.clusterCache.counts cluster = none) := by
  have counts := fun c => ClusterCache.counts_releaseCluster fs.clusterCache cluster c
  unfold releaseCluster
  apply meets_get_bind.mpr
  apply meets_modify_bind.mpr
  cases found : SortedMap.get? fs.clusterCache cluster with
  | none =>
    rw [ClusterCache.releaseCluster_of_none found] at counts ⊢
    exact ⟨Faultless.refl fs, counts⟩
  | some entry =>
    rw [ClusterCache.releaseCluster_of_some found] at counts ⊢
    by_cases last : entry.referenceCount - 1 = 0
    · rw [if_pos last] at counts ⊢
      refine (keepsCache_flushReleased _ _ _).mono ?_ ?_
      · rintro - t ⟨cache, same⟩
        exact ⟨same, fun c => by rw [cache]; exact counts c⟩
      · rintro e t ⟨cache, stop⟩
        refine ⟨stop, fun c => by rw [cache]; exact counts c, ?_⟩
        rw [cache]
        show ClusterCache.counts (SortedMap.erase _ _) _ = _
        unfold ClusterCache.counts
        rw [SortedMap.get?_erase, if_pos rfl]
        rfl
    · rw [if_neg last] at counts ⊢
      exact ⟨Faultless.refl fs, counts⟩

end Emerald.Fs
