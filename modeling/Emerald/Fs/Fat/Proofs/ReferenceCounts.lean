
import Emerald.Fs.Fat.Proofs.Accesses
import Emerald.Misc.Reachable

/-!
# Reference counts of the cluster cache

Every open file that is at a cluster holds one reference to it. `read_write_file` gives up a
reference before the disk access that may fail, or takes it to be there before that access, so the
counts survive every operation but a read or a write that the disk stops.
-/

namespace Emerald.Fs
variable {α : Type} {p : FileM α} {fs : FatFilesystem} {helper : AccessHelper} {cluster id : Nat}
  {e : Failure}

/-- The references to a cluster: those of the other files and the one of this file. -/
def held (others : Nat → Nat) (helper : AccessHelper) (cluster : Nat) : Nat :=
  others cluster + if helper.currentCluster = cluster ∧ cluster ≠ 0 then 1 else 0

/-- Every cluster that is held is cached, and cached clusters have the count of their holders. -/
def CountsAre (fs : FatFilesystem) (holders : Nat → Nat) : Prop :=
  ∀ c, (fs.clusterCache.counts c = none ∧ holders c = 0) ∨
    fs.clusterCache.counts c = some (holders c)

/-- The counts as one of the files sees them. -/
def Counted (others : Nat → Nat) (s : Session) : Prop :=
  CountsAre s.fs (held others s.accessHelper)

section
variable {others holders : Nat → Nat} {s t : Session} {next c : Nat} {fat : Fat} {β : Type}

theorem CountsAre.of_counts {fs' : FatFilesystem}
    (counts : ∀ c, fs'.clusterCache.counts c = fs.clusterCache.counts c)
    (counted : CountsAre fs holders) : CountsAre fs' holders := by
  intro c
  rw [counts c]
  exact counted c

/-- A cluster that is held is counted. -/
theorem CountsAre.count (counted : CountsAre fs holders)
    (pos : 0 < holders c) : fs.clusterCache.counts c = some (holders c) := by
  rcases counted c with ⟨-, zero⟩ | count
  · omega
  · exact count

theorem held_current (present : helper.currentCluster ≠ 0) :
    held others helper helper.currentCluster = others helper.currentCluster + 1 := by
  unfold held
  rw [if_pos ⟨rfl, present⟩]

theorem held_other (other : helper.currentCluster ≠ c) :
    held others helper c = others c := by
  unfold held
  rw [if_neg fun same => other same.1]
  rfl

theorem held_none (absent : helper.currentCluster = 0) (c : Nat) :
    held others helper c = others c := by
  unfold held
  rw [if_neg]
  · rfl
  · rintro ⟨same, present⟩
    exact present (same.symm.trans absent)

/-- The cluster of a file counts the file itself. -/
theorem Counted.current (counted : Counted others s) (present : s.accessHelper.currentCluster ≠ 0) :
    s.fs.clusterCache.counts s.accessHelper.currentCluster =
      some (others s.accessHelper.currentCluster + 1) := by
  rw [← held_current present]
  exact CountsAre.count counted (by rw [held_current present]; omega)

/-- A file that is at no cluster leaves all counts to the others. -/
theorem Counted.alone (counted : Counted others s) (absent : s.accessHelper.currentCluster = 0) :
    CountsAre s.fs others := by
  intro c
  have alone : held others s.accessHelper c = others c := held_none absent c
  rw [← alone]
  exact counted c

theorem countAfterRelease_succ (n : Nat) :
    countAfterRelease (some (n + 1)) = if n = 0 then none else some n := rfl

/-- A file that gives up its cluster leaves the counts of the others. -/
theorem Released.countsAre (released : Released s.fs cluster fs) (counted : Counted others s)
    (current : s.accessHelper.currentCluster = cluster) (present : cluster ≠ 0) :
    CountsAre fs others := by
  subst current
  have count := counted.current present
  intro c
  rw [released c]
  by_cases same : c = s.accessHelper.currentCluster
  · rw [if_pos same, count, countAfterRelease_succ, ← same]
    split
    · exact .inl ⟨rfl, ‹_›⟩
    · exact .inr rfl
  · have alone : held others s.accessHelper c = others c := held_other (Ne.symm same)
    rw [if_neg same, ← alone]
    exact counted c

/-- After the cluster of a file is released the file must no longer hold it. -/
theorem Released.not_counted (released : Released s.fs cluster t.fs) (counted : Counted others s)
    (current : s.accessHelper.currentCluster = cluster) (present : cluster ≠ 0)
    (same : t.accessHelper = s.accessHelper) : ¬ Counted others t := by
  intro counted'
  have after := released.countsAre counted current present cluster
  subst current
  have count := counted'.current (same ▸ present)
  rw [same] at count
  rcases after with ⟨absent, -⟩ | fewer
  · rw [absent] at count
    cases count
  · rw [fewer] at count
    have := Option.some.inj count
    omega

/-! ## One open file -/

/-- How an operation of a file stops: on the disk with its counts lost, or for another reason with
its counts kept. It never misses its cluster in the cache. -/
def SessionStop (others : Nat → Nat) (s : Session) (e : Failure) (t : Session) : Prop :=
  e = .panic .assertion ∨ (e.IsDisk ∧ s.fs.disk.faultIn ≠ none ∧ ¬ Counted others t) ∨
    ((∃ error, e = .err error) ∧ ¬ e.IsDisk ∧ Faultless s.fs t.fs ∧ Counted others t)

theorem SessionStop.of_faultless {u : Session} (same : Faultless s.fs t.fs)
    (stop : SessionStop others t e u) : SessionStop others s e u := by
  rcases stop with panics | ⟨disk, faulty, lost⟩ | ⟨err, other, kept, counted⟩
  · exact .inl panics
  · exact .inr (.inl ⟨disk, fun healthy => faulty (same.mp healthy), lost⟩)
  · exact .inr (.inr ⟨err, other, same.trans kept, counted⟩)

theorem DiskStop.session (stop : DiskStop s.fs e) (lost : ¬ Counted others t) :
    SessionStop others s e t := by
  rcases stop with panics | ⟨disk, faulty⟩
  · exact .inl panics
  · exact .inr (.inl ⟨disk, faulty, lost⟩)

theorem meets_onFs {p : FatM α} {post : α → Session → Prop} {fail : Failure → Session → Prop} :
    Meets (onFs p) s post fail ↔
      Meets p s.fs (fun a fs => post a { s with fs := fs })
        (fun e fs => fail e { s with fs := fs }) := by
  unfold Meets onFs
  cases p s.fs <;> rfl

theorem onFs_error {p : FatM α} (failed : p s.fs = .error e fs) :
    onFs p s = .error e { s with fs := fs } := by
  unfold onFs
  rw [failed]

theorem onFs_ok {p : FatM α} {a : α} (returned : p s.fs = .ok a fs) :
    onFs p s = .ok a { s with fs := fs } := by
  unfold onFs
  rw [returned]

/-- The program keeps the counts of the file and of the others unless the disk stops it. -/
def KeepsCounts {α : Type} (others : Nat → Nat) (p : FileM α) (s : Session) : Prop :=
  Meets p s (fun _ t => Counted others t ∧ Faultless s.fs t.fs) (SessionStop others s)

theorem KeepsCounts.after (same : Faultless s.fs t.fs) (kept : KeepsCounts others p t) :
    Meets p t (fun _ u => Counted others u ∧ Faultless s.fs u.fs) (SessionStop others s) := by
  refine kept.mono ?_ ?_
  · rintro b u ⟨counted, same'⟩
    exact ⟨counted, same.trans same'⟩
  · intro e u stop
    exact stop.of_faultless same

theorem KeepsCounts.bind {f : α → FileM β} (first : KeepsCounts others p s)
    (second : ∀ a t, Counted others t → KeepsCounts others (f a) t) :
    KeepsCounts others (p >>= f) s := by
  refine Meets.bind _ first ?_
  rintro a t ⟨counted, same⟩
  exact (second a t counted).after same

theorem keepsCounts_assertThat (counted : Counted others s) (condition : Bool) :
    KeepsCounts others (onFs (assertThat condition)) s := by
  apply meets_onFs.mpr
  apply Meets.assertThat
  · intro _
    exact ⟨counted, Faultless.refl _⟩
  · intro _
    exact .inl rfl

/-- The number that a link holds is the one of a data cluster. -/
theorem Fat.bounds_of_next (goes : fat.readFatEntry cluster = some (.next next)) :
    2 ≤ next ∧ next ≤ fat.fatType.endOfChain - 2 := by
  obtain ⟨bytes, -, value⟩ := bind_eq_some.mp goes
  have value := Option.some.inj value
  unfold FatEntry.fromU32 at value
  split_ifs at value
  cases value
  assumption

theorem Fat.two_le_of_nextCluster
    (found : fat.nextCluster cluster = some (.ok (some next))) : 2 ≤ next := by
  obtain ⟨entry, read, found⟩ := bind_eq_some.mp found
  cases entry with
  | next target =>
    cases found
    exact (bounds_of_next read).1
  | _ => cases found

theorem walkChain_meets (fs : FatFilesystem) (cluster links : Nat) (present : cluster ≠ 0) :
    Meets (walkChain cluster links) fs (fun last t => t = fs ∧ last ≠ 0)
      (fun e t => t = fs ∧ (e = .panic .assertion ∨ ∃ error, e = .err (.fatError error))) := by
  induction links generalizing cluster with
  | zero => exact ⟨rfl, present⟩
  | succ links ih =>
    refine Meets.bind _ (nextCluster_meets fs cluster) ?_
    rintro next _ ⟨rfl, found⟩
    cases next with
    | some next =>
      have := Fat.two_le_of_nextCluster found
      exact ih next (by omega)
    | none => exact ⟨rfl, .inr ⟨_, rfl⟩⟩

theorem SessionStop.of_table (counted : Counted others s)
    (stop : e = .panic .assertion ∨ ∃ error, e = .err (.fatError error)) :
    SessionStop others s e s := by
  rcases stop with panics | ⟨error, rfl⟩
  · exact .inl panics
  · refine .inr (.inr ⟨⟨_, rfl⟩, ?_, Faultless.refl _, counted⟩)
    rintro ⟨sector, disk, same⟩
    cases same

theorem leaveCluster_keepsCounts (counted : Counted others s) (clusterIndex : Nat) :
    KeepsCounts others (leaveCluster clusterIndex) s := by
  apply meets_get_bind.mpr
  by_cases seek : s.accessHelper.clusterIndex ≠ clusterIndex
  · rw [if_pos seek]
    by_cases present : s.accessHelper.currentCluster ≠ 0
    · rw [if_pos present]
      apply meets_bind.mpr
      apply meets_onFs.mpr
      refine (releaseCluster_meets _ _ _).mono ?_ ?_
      · rintro - fs ⟨same, released⟩
        refine ⟨?_, same⟩
        intro c
        rw [held_none rfl]
        exact released.countsAre counted rfl present c
      · rintro e fs ⟨stop, released, -⟩
        exact stop.session (released.not_counted counted rfl present rfl)
    · rw [if_neg present]
      refine ⟨?_, Faultless.refl _⟩
      intro c
      rw [held_none rfl]
      exact counted.alone (by omega) c
  · rw [if_neg seek]
    exact ⟨counted, Faultless.refl _⟩

/-- Locking a cluster adds the file that is at it to the counts of the others. -/
theorem lockCluster_settles (counted : CountsAre fs others) (present : helper.currentCluster ≠ 0) :
    Meets (lockCluster helper.currentCluster) fs
      (fun _ t => Faultless fs t ∧ CountsAre t (held others helper))
      (fun e t => DiskStop fs e ∧ (∀ c, t.clusterCache.counts c = fs.clusterCache.counts c) ∧
        fs.clusterCache.counts helper.currentCluster = none) := by
  refine (lockCluster_meets _ _).mono ?_ ?_
  · rintro - t ⟨same, counts⟩
    refine ⟨same, fun c => ?_⟩
    rw [counts c]
    by_cases here : c = helper.currentCluster
    · subst here
      rw [if_pos rfl, held_current present]
      rcases counted helper.currentCluster with ⟨absent, zero⟩ | count
      · rw [absent, zero]
        exact .inr rfl
      · rw [count]
        exact .inr rfl
    · rw [if_neg here, held_other (Ne.symm here)]
      exact counted c
  · rintro e t ⟨cache, stop, absent⟩
    exact ⟨stop, fun c => by rw [cache], absent⟩

theorem enterCluster_meets (counted : Counted others s) (clusterIndex : Nat) :
    Meets (enterCluster clusterIndex) s
      (fun cluster t => (Counted others t ∧ Faultless s.fs t.fs) ∧
        t.accessHelper.currentCluster = cluster ∧ cluster ≠ 0)
      (SessionStop others s) := by
  apply meets_get_bind.mpr
  split
  · rename_i absent
    apply Meets.bind (fun _ t => s = t ∧ wrap32 s.inode.startCluster ≠ 0)
    · apply meets_onFs.mpr
      apply Meets.assertThat
      · intro nonzero
        exact ⟨rfl, of_decide_eq_true nonzero⟩
      · intro _
        exact .inl rfl
    · rintro - _ ⟨rfl, nonzero⟩
      apply Meets.bind (fun cluster t => s = t ∧ cluster ≠ 0)
      · apply meets_onFs.mpr
        refine (walkChain_meets s.fs _ clusterIndex nonzero).mono ?_ ?_
        · rintro cluster _ ⟨rfl, present⟩
          exact ⟨rfl, present⟩
        · rintro e _ ⟨rfl, stop⟩
          exact SessionStop.of_table counted stop
      · rintro cluster _ ⟨rfl, present⟩
        apply meets_modify_bind.mpr
        apply meets_bind.mpr
        apply meets_onFs.mpr
        have taken : (AccessHelper.mk cluster clusterIndex).currentCluster ≠ 0 := present
        refine (lockCluster_settles (counted.alone absent) taken).mono ?_ ?_
        · rintro - fs ⟨same, settled⟩
          exact ⟨⟨settled, same⟩, rfl, present⟩
        · rintro e fs ⟨stop, counts, absent⟩
          refine stop.session fun counted' => ?_
          have current := (counts _).symm.trans (counted'.current taken)
          exact absurd (absent.symm.trans current) (by simp)
  · rename_i present
    obtain ⟨entry, found, -⟩ := Option.map_eq_some_iff.mp (counted.current present)
    rw [found]
    exact ⟨⟨counted, Faultless.refl _⟩, rfl, present⟩

/-- Reading or writing the data of a cluster changes no count. -/
theorem accessEntry_counts (fs : FatFilesystem) (buf : FileAccessBuffer)
    (maxToAccess cluster positionInCluster accessed : Nat) :
    Meets (accessEntry buf maxToAccess cluster positionInCluster accessed) fs
      (fun _ t => Faultless fs t ∧ ∀ c, t.clusterCache.counts c = fs.clusterCache.counts c)
      (fun e _ => e = .panic .assertion) := by
  apply Meets.bind (fun entry t => fs = t ∧ SortedMap.get? fs.clusterCache cluster = some entry)
  · apply meets_get_bind.mpr
    exact Meets.orPanic (fun entry found => ⟨rfl, found⟩) fun _ => rfl
  · rintro entry _ ⟨rfl, found⟩
    have count : fs.clusterCache.counts cluster = some entry.referenceCount :=
      Option.map_eq_some_iff.mpr ⟨entry, found, rfl⟩
    apply Meets.bind (fun _ t => fs = t)
    · exact Meets.assertThat (fun _ => rfl) fun _ => rfl
    · rintro - _ rfl
      cases buf with
      | read length =>
        apply Meets.bind (fun _ t => fs = t)
        · exact Meets.orPanic (fun _ _ => rfl) fun _ => rfl
        · rintro part _ rfl
          exact ⟨Faultless.refl _, fun _ => rfl⟩
      | write bytes =>
        apply Meets.bind (fun _ t => fs = t)
        · exact Meets.orPanic (fun _ _ => rfl) fun _ => rfl
        · rintro part _ rfl
          refine ⟨Faultless.refl _, fun c => ?_⟩
          show ClusterCache.counts (SortedMap.insert _ _ _) c = _
          rw [ClusterCache.counts_insert]
          split
          · rename_i same
            rw [same, count]
          · rfl

theorem advanceCluster_meets (counted : Counted others s)
    (current : s.accessHelper.currentCluster = cluster) (present : cluster ≠ 0) :
    Meets (advanceCluster cluster) s
      (fun next t => (Counted others t ∧ Faultless s.fs t.fs) ∧
        ∀ c, next = some c → t.accessHelper.currentCluster = c ∧ c ≠ 0)
      (SessionStop others s) := by
  apply Meets.bind (fun next t => s = t ∧ s.fs.fat.nextCluster cluster = some (.ok next))
  · apply meets_onFs.mpr
    refine (nextCluster_meets s.fs cluster).mono ?_ ?_
    · rintro next _ ⟨rfl, found⟩
      exact ⟨rfl, found⟩
    · rintro e _ ⟨rfl, stop⟩
      exact SessionStop.of_table counted stop
  · rintro next _ ⟨rfl, found⟩
    cases next with
    | none => exact ⟨⟨counted, Faultless.refl _⟩, fun c same => by cases same⟩
    | some next =>
      have data := Fat.two_le_of_nextCluster found
      apply meets_get_bind.mpr
      apply Meets.bind (fun _ t => Faultless s.fs t.fs ∧ Released s.fs cluster t.fs ∧
        t.accessHelper = s.accessHelper)
      · apply meets_onFs.mpr
        refine (releaseCluster_meets _ _ _).mono ?_ ?_
        · rintro - fs ⟨same, released⟩
          exact ⟨same, released, rfl⟩
        · rintro e fs ⟨stop, released, -⟩
          exact stop.session (released.not_counted counted current present rfl)
      · rintro - t ⟨same, released, helper⟩
        have alone := released.countsAre counted current present
        have taken : (AccessHelper.mk next 0).currentCluster ≠ 0 := by
          show next ≠ 0
          omega
        apply Meets.bind (fun _ u => Faultless t.fs u.fs ∧
          CountsAre u.fs (held others ⟨next, 0⟩))
        · apply meets_onFs.mpr
          refine (lockCluster_settles alone taken).mono ?_ ?_
          · rintro - fs settled
            exact settled
          · rintro e fs ⟨stop, counts, -⟩
            have unchanged : Released s.fs cluster fs := fun c => (counts c).trans (released c)
            refine SessionStop.of_faultless same (stop.session ?_)
            exact Released.not_counted unchanged counted current present helper
        · rintro - u ⟨same', settled⟩
          refine ⟨⟨settled, same.trans same'⟩, ?_⟩
          rintro c ⟨⟩
          exact ⟨rfl, taken⟩

theorem nextTurn_meets (positionInCluster : Nat) (counted : Counted others s)
    (current : s.accessHelper.currentCluster = cluster) (present : cluster ≠ 0) :
    Meets (nextTurn cluster positionInCluster) s
      (fun next t => (Counted others t ∧ Faultless s.fs t.fs) ∧
        ∀ c p, next = some (c, p) → t.accessHelper.currentCluster = c ∧ c ≠ 0)
      (SessionStop others s) := by
  apply meets_get_bind.mpr
  split
  · apply Meets.bind (fun _ t => s = t)
    · apply meets_onFs.mpr
      exact Meets.assertThat (fun _ => rfl) fun _ => .inl rfl
    · rintro - _ rfl
      apply meets_bind.mpr
      refine (advanceCluster_meets counted current present).mono ?_ fun _ _ stop => stop
      rintro next t ⟨kept, at_next⟩
      refine ⟨kept, ?_⟩
      intro c p same
      obtain ⟨d, found, equal⟩ := Option.map_eq_some_iff.mp same
      cases equal
      exact at_next c found
  · refine ⟨⟨counted, Faultless.refl _⟩, ?_⟩
    rintro c p ⟨⟩
    exact ⟨current, present⟩

/-- The loop: in every turn the file is at the cluster it accesses. -/
theorem accessLoop_keepsCounts (buf : FileAccessBuffer)
    (maxToAccess turns accessed positionInCluster : Nat) (out : List UInt8)
    (counted : Counted others s) (current : s.accessHelper.currentCluster = cluster)
    (present : cluster ≠ 0) :
    KeepsCounts others
      (accessLoop buf maxToAccess turns accessed positionInCluster cluster out) s := by
  induction turns generalizing s accessed positionInCluster cluster out with
  | zero =>
    unfold accessLoop
    split
    · exact .inl rfl
    · exact ⟨counted, Faultless.refl _⟩
  | succ turns ih =>
    unfold accessLoop
    split
    · apply Meets.bind (fun _ t => (Counted others t ∧ Faultless s.fs t.fs) ∧
        t.accessHelper = s.accessHelper)
      · apply meets_onFs.mpr
        refine (accessEntry_counts _ _ _ _ _ _).mono ?_ fun _ _ panics => .inl panics
        rintro part fs ⟨same, counts⟩
        exact ⟨⟨counted.of_counts counts, same⟩, rfl⟩
      · rintro ⟨toAccess, part⟩ t ⟨⟨counted, same⟩, helper⟩
        rw [← helper] at current
        refine KeepsCounts.after same ?_
        refine Meets.bind _ (nextTurn_meets _ counted current present) ?_
        rintro next u ⟨⟨counted, same⟩, at_next⟩
        refine KeepsCounts.after same ?_
        cases next with
        | none => exact ⟨counted, Faultless.refl _⟩
        | some turn =>
          obtain ⟨current, present⟩ := at_next turn.1 turn.2 rfl
          exact ih _ _ _ counted current present
    · exact ⟨counted, Faultless.refl _⟩

theorem readWriteFile_keepsCounts (counted : Counted others s) (position : Nat)
    (buf : FileAccessBuffer) : KeepsCounts others (readWriteFile position buf) s := by
  apply meets_get_bind.mpr
  dsimp only
  split
  · exact ⟨counted, Faultless.refl _⟩
  · apply KeepsCounts.bind (leaveCluster_keepsCounts counted _)
    intro _ t counted
    refine Meets.bind _ (enterCluster_meets counted _) ?_
    rintro cluster u ⟨⟨counted, same⟩, current, present⟩
    exact (accessLoop_keepsCounts _ _ _ _ _ _ counted current present).after same

/-- The table of the filesystem is all that the program changes, and only the table stops it. -/
def KeepsRest {α : Type} (p : FatM α) (fs : FatFilesystem) : Prop :=
  Meets p fs (fun _ t => ∃ fat, t = { fs with fat := fat })
    (fun e t => (∃ fat, t = { fs with fat := fat }) ∧
      (e = .panic .assertion ∨ ∃ error, e = .err (.fatError error)))

theorem KeepsRest.bind {p : FatM α} {f : α → FatM β} (first : KeepsRest p fs)
    (second : ∀ a t, KeepsRest (f a) t) : KeepsRest (p >>= f) fs := by
  refine Meets.bind _ first ?_
  rintro a _ ⟨fat, rfl⟩
  refine (second a _).mono ?_ ?_
  · rintro b _ ⟨fat', rfl⟩
    exact ⟨fat', rfl⟩
  · rintro e _ ⟨⟨fat', rfl⟩, stop⟩
    exact ⟨⟨fat', rfl⟩, stop⟩

section
variable (fs : FatFilesystem)

theorem keepsRest_writeFatEntry (entry : Nat) (fatEntry : FatEntry) :
    KeepsRest (writeFatEntry entry fatEntry) fs := by
  refine (writeFatEntry_meets fs entry fatEntry).mono ?_ ?_
  · rintro - _ ⟨fat, -, rfl⟩
    exact ⟨fat, rfl⟩
  · rintro e _ ⟨panics, rfl⟩
    exact ⟨⟨_, rfl⟩, .inl panics⟩

theorem keepsRest_nextCluster (cluster : Nat) : KeepsRest (nextCluster cluster) fs := by
  refine (nextCluster_meets fs cluster).mono ?_ ?_
  · rintro next _ ⟨rfl, -⟩
    exact ⟨_, rfl⟩
  · rintro e _ ⟨rfl, stop⟩
    exact ⟨⟨_, rfl⟩, stop⟩

theorem keepsRest_followChain (cluster links : Nat) : KeepsRest (followChain cluster links) fs := by
  induction links generalizing fs cluster with
  | zero => exact ⟨_, rfl⟩
  | succ links ih =>
    apply KeepsRest.bind (keepsRest_nextCluster _ _)
    intro next t
    cases next with
    | none => exact ⟨⟨_, rfl⟩, .inl rfl⟩
    | some next =>
      apply KeepsRest.bind (p := orPanic (some next)) ⟨_, rfl⟩
      intro next u
      apply KeepsRest.bind (ih _ _)
      intro rest v
      exact ⟨_, rfl⟩

theorem keepsRest_freeClusters (clusters : List Nat) : KeepsRest (freeClusters clusters) fs := by
  induction clusters generalizing fs with
  | nil => exact ⟨_, rfl⟩
  | cons cluster rest ih =>
    apply KeepsRest.bind (keepsRest_writeFatEntry _ _ _)
    intro _ t
    exact ih t

theorem keepsRest_addClusters (lastCluster toAdd : Nat) :
    KeepsRest (addClusters lastCluster toAdd) fs := by
  induction toAdd generalizing fs lastCluster with
  | zero => exact ⟨_, rfl⟩
  | succ toAdd ih =>
    apply meets_get_bind.mpr
    cases fs.fat.findFreeCluster with
    | none => exact ⟨⟨_, rfl⟩, .inr ⟨_, rfl⟩⟩
    | some newCluster =>
      apply KeepsRest.bind (keepsRest_writeFatEntry _ _ _)
      intro _ t
      apply KeepsRest.bind (keepsRest_writeFatEntry _ _ _)
      intro _ u
      exact ih u _

theorem keepsRest_resizeChain (startCluster current new : Nat) :
    KeepsRest (resizeChain startCluster current new) fs := by
  apply KeepsRest.bind (keepsRest_followChain _ _ _)
  intro kept t
  split
  · apply KeepsRest.bind (keepsRest_followChain _ _ _)
    intro clusters u
    apply KeepsRest.bind (keepsRest_freeClusters _ _)
    intro _ v
    exact keepsRest_writeFatEntry _ _ _
  · exact keepsRest_addClusters _ _ _

end

/-- A resize keeps the counts also when it fails, and the disk has no part in it. -/
theorem setFileSize_counts (counted : Counted others s) (size : Nat) :
    Meets (setFileSize size) s (fun _ t => Counted others t ∧ Faultless s.fs t.fs)
      (fun e t => e = .panic .assertion ∨
        (∃ error, e = .err (.fatError error)) ∧ Counted others t ∧ Faultless s.fs t.fs) := by
  apply meets_get_bind.mpr
  dsimp only
  split
  · apply meets_bind.mpr
    apply meets_onFs.mpr
    refine (keepsRest_resizeChain _ _ _ _).mono ?_ ?_
    · rintro - _ ⟨fat, rfl⟩
      exact ⟨counted, Faultless.refl _⟩
    · rintro e _ ⟨⟨fat, rfl⟩, panics | stop⟩
      · exact .inl panics
      · exact .inr ⟨stop, counted, Faultless.refl _⟩
  · exact ⟨counted, Faultless.refl _⟩

theorem mapErr_setFileSize_keepsCounts (counted : Counted others s) (size : Nat) :
    KeepsCounts others (mapErr .couldNotSetFileLength (setFileSize size)) s := by
  have kept := setFileSize_counts counted size
  unfold KeepsCounts Meets mapErr
  cases run : setFileSize size s with
  | ok a t => exact kept.of_ok run
  | error e t =>
    rcases kept.of_error run with rfl | ⟨⟨error, rfl⟩, counted', same⟩
    · exact .inl rfl
    · refine .inr (.inr ⟨⟨_, rfl⟩, ?_, same, counted'⟩)
      rintro ⟨sector, disk, equal⟩
      cases equal

theorem writeZeros_keepsCounts (currentSize extendSize turns written : Nat)
    (counted : Counted others s) :
    KeepsCounts others (writeZeros currentSize extendSize turns written) s := by
  induction turns generalizing s written with
  | zero =>
    unfold writeZeros
    split
    · exact .inl rfl
    · exact ⟨counted, Faultless.refl _⟩
  | succ turns ih =>
    unfold writeZeros
    split
    · apply meets_get_bind.mpr
      apply KeepsCounts.bind (readWriteFile_keepsCounts counted _ _)
      intro _ t counted
      exact ih _ counted
    · exact ⟨counted, Faultless.refl _⟩

section
variable (counted : Counted others s)
include counted

theorem readFile_keepsCounts (position length : Nat) :
    KeepsCounts others (readFile position length) s := by
  apply KeepsCounts.bind (keepsCounts_assertThat counted _)
  intro _ t counted
  exact readWriteFile_keepsCounts counted _ _

/-- The part of `write_file` after the file has its size. -/
theorem writeSized_keepsCounts (currentSize position : Nat) (buf : List UInt8) :
    KeepsCounts others (do
      writeZeros currentSize (position - currentSize) (position - currentSize) 0
      let written ← readWriteFile position (.write buf)
      pure written.1) s := by
  apply KeepsCounts.bind (writeZeros_keepsCounts _ _ _ _ counted)
  intro _ t counted
  apply KeepsCounts.bind (readWriteFile_keepsCounts counted _ _)
  intro written u counted
  exact ⟨counted, Faultless.refl _⟩

theorem writeFile_keepsCounts (position : Nat) (buf : List UInt8) :
    KeepsCounts others (writeFile position buf) s := by
  apply KeepsCounts.bind (keepsCounts_assertThat counted _)
  intro _ t counted
  apply meets_get_bind.mpr
  dsimp only
  split
  · apply KeepsCounts.bind (mapErr_setFileSize_keepsCounts counted _)
    intro _ u counted
    exact writeSized_keepsCounts counted _ _ _
  · exact writeSized_keepsCounts counted _ _ _

/-- Closing a file leaves the counts of the others, also when the disk stops it. -/
theorem closeFile_counts (zero : others 0 = 0) :
    Meets closeFile s (fun _ t => CountsAre t.fs others ∧ Faultless s.fs t.fs)
      (fun e t => e = .panic .assertion ∨
        e.IsDisk ∧ s.fs.disk.faultIn ≠ none ∧ CountsAre t.fs others) := by
  have left : ∀ fs, Released s.fs s.accessHelper.currentCluster fs → CountsAre fs others := by
    intro fs released
    by_cases present : s.accessHelper.currentCluster = 0
    · intro c
      have count := counted.alone present c
      rw [released c]
      split
      · rename_i here
        rw [present] at here ⊢
        subst here
        rw [zero] at count ⊢
        rcases count with ⟨absent, -⟩ | unused
        · exact .inl ⟨by rw [absent]; rfl, rfl⟩
        · exact .inl ⟨by rw [unused]; rfl, rfl⟩
      · exact count
    · exact released.countsAre counted rfl present
  apply meets_get_bind.mpr
  apply meets_onFs.mpr
  refine (releaseCluster_meets _ _ _).mono ?_ ?_
  · rintro - fs ⟨same, released⟩
    exact ⟨left fs released, same⟩
  · rintro e fs ⟨panics | ⟨disk, faulty⟩, released, -⟩
    · exact .inl panics
    · exact .inr ⟨disk, faulty, left fs released⟩

end

end

/-! ## All open files -/

variable (files : SortedMap OpenFile)

/-- The open files that are at a cluster. -/
def holders (cluster : Nat) : Nat :=
  files.entries.countP fun file =>
    decide (file.2.accessHelper.currentCluster = cluster ∧ cluster ≠ 0)

/-- Every open file that is at a cluster has it in the cache, and each cached cluster counts the
files that are at it. -/
def FatWorld.CountsMatch (w : FatWorld) : Prop :=
  (∀ id file, w.files.get? id = some file → file.accessHelper.currentCluster ≠ 0 →
    ∃ entry, SortedMap.get? w.fs.clusterCache file.accessHelper.currentCluster = some entry) ∧
  ∀ cluster entry, SortedMap.get? w.fs.clusterCache cluster = some entry →
    entry.referenceCount = holders w.files cluster

theorem FatWorld.countsMatch_iff (w : FatWorld) :
    w.CountsMatch ↔ CountsAre w.fs (holders w.files) := by
  unfold CountsAre ClusterCache.counts
  constructor
  · rintro ⟨cached, counts⟩ c
    cases found : SortedMap.get? w.fs.clusterCache c with
    | some entry => exact .inr (congrArg some (counts c entry found))
    | none =>
      refine .inl ⟨rfl, List.countP_eq_zero.mpr ?_⟩
      rintro ⟨id, file⟩ mem holds
      obtain ⟨rfl, present⟩ := of_decide_eq_true holds
      obtain ⟨entry, here⟩ := cached id file (w.files.get?_eq_some_iff.mpr mem) present
      exact absurd (found.symm.trans here) (by simp)
  · intro counted
    constructor
    · intro id file found present
      have pos : 0 < holders w.files file.accessHelper.currentCluster :=
        List.countP_pos_iff.mpr
          ⟨(id, file), w.files.get?_eq_some_iff.mp found, decide_eq_true ⟨rfl, present⟩⟩
      rcases counted file.accessHelper.currentCluster with ⟨-, none⟩ | count
      · omega
      · obtain ⟨entry, here, -⟩ := Option.map_eq_some_iff.mp count
        exact ⟨entry, here⟩
    · intro cluster entry found
      rcases counted cluster with ⟨absent, -⟩ | count
      · rw [found] at absent
        cases absent
      · rw [found] at count
        exact Option.some.inj count

theorem holders_zero : holders files 0 = 0 := by
  unfold holders
  simp

/-- The files at a cluster are those of the others and the given one. -/
theorem held_erase {files : SortedMap OpenFile} {file : OpenFile}
    (found : files.get? id = some file) :
    held (holders (files.erase id)) file.accessHelper = holders files := by
  funext c
  have split := (files.perm_erase found).countP_eq fun file =>
    decide (file.2.accessHelper.currentCluster = c ∧ c ≠ 0)
  rw [List.countP_cons] at split
  simp only [decide_eq_true_eq] at split
  exact split.symm

theorem erase_insert (id : Nat) (file : OpenFile) :
    (files.insert id file).erase id = files.erase id := by
  apply SortedMap.eq_of_get?
  intro k
  rw [SortedMap.get?_erase, SortedMap.get?_erase, SortedMap.get?_insert]
  split <;> rfl

theorem held_insert (id : Nat) (file : OpenFile) :
    held (holders (files.erase id)) file.accessHelper = holders (files.insert id file) := by
  rw [← erase_insert files id file]
  exact held_erase (files.get?_insert_self id file)

theorem FatWorld.operate_eq_some {w : FatWorld} {faultIn : FaultIn} {t : Session}
    (done : w.operate id faultIn p = some t) :
    ∃ file, w.files.get? id = some file ∧ stateAfter (p (w.session file faultIn)) = some t ∧
      t.fs.disk.faultIn = none := by
  obtain ⟨file, found, done⟩ := bind_eq_some.mp done
  obtain ⟨u, after, done⟩ := bind_eq_some.mp done
  obtain ⟨reached, done⟩ := Option.ite_none_right_eq_some.mp done
  cases done
  exact ⟨file, found, after, reached⟩

section
variable {w : FatWorld} {id : Nat} {file : OpenFile} {faultIn : FaultIn}

theorem counted_session (counted : w.CountsMatch) (found : w.files.get? id = some file) :
    Counted (holders (w.files.erase id)) (w.session file faultIn) := by
  have all := w.countsMatch_iff.mp counted
  rw [← held_erase found] at all
  exact all

/-- A read or a write keeps the counts if and only if the disk does not fail it. -/
theorem countsMatch_operate_iff {t : Session}
    (kept : KeepsCounts (holders (w.files.erase id)) p (w.session file faultIn))
    (after : stateAfter (p (w.session file faultIn)) = some t)
    (reached : t.fs.disk.faultIn = none) :
    (FatWorld.mk t.fs (w.files.insert id ⟨t.inode, t.accessHelper⟩)).CountsMatch ↔
      faultIn = none := by
  have counts : (FatWorld.mk t.fs (w.files.insert id ⟨t.inode, t.accessHelper⟩)).CountsMatch ↔
      Counted (holders (w.files.erase id)) t := by
    rw [FatWorld.countsMatch_iff, ← held_insert w.files id ⟨t.inode, t.accessHelper⟩]
    rfl
  rw [counts]
  rcases stateAfter_meets kept after with
    ⟨_, counted, same⟩ | ⟨_, panics | ⟨disk, faulty, lost⟩ | ⟨_, _, same, counted⟩⟩
  · exact ⟨fun _ => same.mpr reached, fun _ => counted⟩
  · cases panics
  · exact ⟨fun counted => absurd counted lost, fun healthy => absurd healthy faulty⟩
  · exact ⟨fun _ => same.mpr reached, fun _ => counted⟩

end

/-- The device fails no access of the call, or the call closes the file. -/
def FileCall.Undisturbed : FileCall → Prop
  | .openFile _ _ => True
  | .readFile _ _ _ faultIn => faultIn = none
  | .writeFile _ _ _ faultIn => faultIn = none
  | .closeFile _ _ => True

instance : DecidablePred FileCall.Undisturbed
  | .openFile _ _ | .closeFile _ _ => inferInstanceAs (Decidable True)
  | .readFile _ _ _ faultIn | .writeFile _ _ _ faultIn =>
    inferInstanceAs (Decidable (faultIn = none))

/-- The states reached from a filesystem with nothing open or cached by calls that meet the
condition. -/
def FatWorld.Reached (guard : FileCall → Prop) : FatWorld → Prop :=
  Reachable (fun w call t => w.step call = some t) (fun _ call => guard call)
    fun w => w.fs.clusterCache = SortedMap.empty ∧ w.files = SortedMap.empty

theorem FatWorld.countsMatch_step_iff {w t : FatWorld} {call : FileCall} (counted : w.CountsMatch)
    (done : w.step call = some t) : t.CountsMatch ↔ call.Undisturbed := by
  cases call with
  | openFile id inode =>
    simp only [FatWorld.step] at done
    split at done
    · rename_i absent
      cases done
      refine iff_of_true ?_ trivial
      have all := w.countsMatch_iff.mp counted
      refine (FatWorld.countsMatch_iff _).mpr ?_
      rw [← held_insert w.files id ⟨inode, AccessHelper.new⟩, w.files.erase_of_get?_none absent]
      intro c
      rw [held_none rfl]
      exact all c
    · cases done
  | readFile id position length faultIn =>
    obtain ⟨u, operated, rfl⟩ := Option.map_eq_some_iff.mp done
    obtain ⟨file, found, after, reached⟩ := operate_eq_some operated
    exact countsMatch_operate_iff
      (readFile_keepsCounts (counted_session counted found) _ _) after reached
  | writeFile id position buf faultIn =>
    obtain ⟨u, operated, rfl⟩ := Option.map_eq_some_iff.mp done
    obtain ⟨file, found, after, reached⟩ := operate_eq_some operated
    exact countsMatch_operate_iff
      (writeFile_keepsCounts (counted_session counted found) _ _) after reached
  | closeFile id faultIn =>
    obtain ⟨u, operated, rfl⟩ := Option.map_eq_some_iff.mp done
    obtain ⟨file, found, after, -⟩ := operate_eq_some operated
    refine iff_of_true ((FatWorld.countsMatch_iff _).mpr ?_) trivial
    rcases stateAfter_meets (closeFile_counts (counted_session counted found)
        (holders_zero _)) after with ⟨_, left, -⟩ | ⟨_, panics | ⟨-, -, left⟩⟩
    · exact left
    · cases panics
    · exact left

/-- An operation that keeps the counts finds the cluster of its file in the cache. -/
theorem KeepsCounts.cached {others : Nat → Nat} {s t : Session} (kept : KeepsCounts others p s) :
    p s ≠ .error (.panic .shouldBeCached) t := by
  intro run
  rcases kept.of_error run with panics | ⟨⟨_, _, disk⟩, -⟩ | ⟨⟨_, err⟩, -⟩
  · cases panics
  · cases disk
  · cases err

/-- As long as the disk fails no read and no write, the cached clusters count the files that are at
them and no call misses its cluster; and a read or a write that the disk fails ends this. -/
theorem FatWorld.countsMatch_of_reached (w : FatWorld) (reached : Reached FileCall.Undisturbed w) :
    w.CountsMatch ∧
      (∀ id file faultIn, w.files.get? id = some file →
        (∀ position length t, Fs.readFile position length (w.session file faultIn) ≠
          .error (.panic .shouldBeCached) t) ∧
        ∀ position buf t, Fs.writeFile position buf (w.session file faultIn) ≠
          .error (.panic .shouldBeCached) t) ∧
      ∀ call t, w.step call = some t → (t.CountsMatch ↔ call.Undisturbed) := by
  have counted : ∀ w, Reached FileCall.Undisturbed w → w.CountsMatch := by
    refine Reachable.invariant ?_ ?_
    · rintro w ⟨cache, files⟩
      refine w.countsMatch_iff.mpr fun c => .inl ⟨?_, ?_⟩
      · rw [cache]
        rfl
      · rw [files]
        rfl
    · intro w call t counted undisturbed done
      exact (countsMatch_step_iff counted done).mpr undisturbed
  have counted := counted w reached
  refine ⟨counted, ?_, fun call t done => countsMatch_step_iff counted done⟩
  intro id file faultIn found
  exact ⟨fun position length t => (readFile_keepsCounts (counted_session counted found) _ _).cached,
    fun position buf t => (writeFile_keepsCounts (counted_session counted found) _ _).cached⟩

namespace FatWorld

/-- The blank volume with no open files. -/
def blank : FatWorld := ⟨blankMounted, SortedMap.empty⟩

/-- A file of one byte in the first cluster. -/
def oneByteFile : FileNode := ⟨⟨[], 0, 2, 2, 0⟩, 1⟩

/-- Two handles of the file read it and one is closed. -/
theorem countsMatch_twoReaders :
    ∃ w, Reached FileCall.Undisturbed w ∧ holders w.files 2 = 1 ∧ w.CountsMatch := by
  obtain ⟨w, reached, count⟩ : ∃ w, Reached FileCall.Undisturbed w ∧ holders w.files 2 = 1 :=
    Reachable.exists_of_run (s := blank) ⟨rfl, rfl⟩ [.openFile 0 oneByteFile,
      .openFile 1 oneByteFile, .readFile 0 0 1 none, .readFile 1 0 1 none, .closeFile 0 none]
      (by decide +kernel)
  exact ⟨w, reached, count, (countsMatch_of_reached w reached).1⟩

/-- The failure of an operation, if it stops. -/
def failureOf {σ α : Type} : EStateM.Result Failure σ α → Option Failure
  | .ok _ _ => none
  | .error e _ => some e

/-- The read of the cluster fails: the handle is left at a cluster that is not in the cache, and
its next read panics. -/
theorem not_countsMatch_failedRead :
    ∃ w, Reached (fun _ => True) w ∧ ¬ w.CountsMatch ∧
      ∃ file, w.files.get? 0 = some file ∧
        failureOf (Fs.readFile 0 1 (w.session file none)) = some (.panic .shouldBeCached) := by
  obtain ⟨w, reached, cache, handle⟩ : ∃ w, Reached (fun _ => True) w ∧
      SortedMap.get? w.fs.clusterCache 2 = none ∧ ((w.files.get? 0).map fun file =>
        (file.accessHelper.currentCluster, failureOf (Fs.readFile 0 1 (w.session file none)))) =
      some (2, some (.panic .shouldBeCached)) :=
    Reachable.exists_of_run (s := blank) ⟨rfl, rfl⟩
      [.openFile 0 oneByteFile, .readFile 0 0 1 (some (0, .deviceError))] (by decide +kernel)
  obtain ⟨file, found, same⟩ := Option.map_eq_some_iff.mp handle
  obtain ⟨current, panics⟩ := Prod.mk.inj same
  refine ⟨w, reached, ?_, file, found, panics⟩
  rintro ⟨cached, -⟩
  obtain ⟨entry, here⟩ := cached 0 file found (by rw [current]; decide)
  rw [current, cache] at here
  cases here

end FatWorld

end Emerald.Fs
