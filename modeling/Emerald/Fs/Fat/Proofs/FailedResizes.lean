
import Emerald.Fs.Fat.Proofs.Resizing

/-!
# Resizes that fail

A file grows by one cluster after another, each linked before the next one is searched. If the
clusters run out part of the way, those that were linked stay in the chain, and only the size of the
node is as before.
-/

namespace Emerald.Fs

open FatFilesystem

variable {old : FatEntry} {error : FileSystemError} {t : FatFilesystem} {links : Nat}

namespace Fat
variable {fat fat' : Fat} {last new c : Nat}

/-- The entries that the search takes for free clusters. -/
def freeEntries (fat : Fat) : List Nat :=
  fat.spareClusters (fat.fatType.entryCount fat.buffer.length)

theorem findFreeCluster_eq_head? (fat : Fat) : fat.findFreeCluster = fat.freeEntries.head? := by
  unfold findFreeCluster freeEntries spareClusters
  rw [List.head?_filter]

theorem free_of_mem_freeEntries (mem : c ∈ fat.freeEntries) :
    fat.readFatEntry c = some .free :=
  (mem_spareClusters.mp mem).2

theorem IsCluster.exact (number : fat.IsCluster c) : fat.fatType.Exact c := by
  obtain ⟨-, high⟩ := number
  unfold FatType.endOfChain at high
  unfold FatType.Exact
  cases format : fat.fatType <;> rw [format] at high <;> dsimp only at high ⊢ <;> omega

theorem IsCluster.toU32 (number : fat.IsCluster new) :
    (FatEntry.next new).toU32 fat.fatType = some new :=
  if_pos number

/-- The table after a cluster was linked to the last one of a chain. -/
structure Appended (fat fat' : Fat) (last new : Nat) : Prop where
  fatType : fat'.fatType = fat.fatType
  length : fat'.buffer.length = fat.buffer.length
  goes : fat'.readFatEntry last = some (.next new)
  ends : fat'.readFatEntry new = some .endOfChain
  others : ∀ c, c ≠ last → c ≠ new → fat.fatType.Exact c →
    fat'.readFatEntry c = fat.readFatEntry c

/-- The cluster that was linked is not free any more. -/
theorem Appended.freeEntries (appended : Appended fat fat' last new) {rest : List Nat}
    (exact : ∀ c, c < fat.fatType.entryCount fat.buffer.length → fat.fatType.Exact c)
    (frees : fat.freeEntries = new :: rest) (used : fat.readFatEntry last ≠ some .free) :
    fat'.freeEntries = rest := by
  have fresh : new ∉ rest := by
    have distinct := fat.spareClusters_nodup (fat.fatType.entryCount fat.buffer.length)
    rw [show fat.spareClusters _ = new :: rest from frees] at distinct
    exact (List.nodup_cons.mp distinct).1
  have without : fat'.freeEntries = fat.freeEntries.filter (· ≠ new) := by
    unfold Fat.freeEntries spareClusters
    rw [appended.fatType, appended.length, List.filter_filter]
    refine List.filter_congr fun c mem => ?_
    rw [List.mem_range'_1] at mem
    by_cases isNew : c = new
    · subst isNew
      rw [appended.ends]
      simp
    · by_cases isLast : c = last
      · subst isLast
        rw [appended.goes]
        simp [used]
      · rw [appended.others c isLast isNew (exact c (by omega))]
        simp [isNew]
  rw [without, frees, List.filter_cons_of_neg (by simp)]
  refine List.filter_eq_self.mpr fun c mem => ?_
  have other : c ≠ new := fun same => fresh (same ▸ mem)
  simp [other]

end Fat

section
variable {fs : FatFilesystem} {last new entry : Nat} {value : FatEntry} {rest : List Nat}

theorem FatFilesystem.TableShape.write (shape : TableShape fs)
    {fat : Fat} (done : fs.fat.writeFatEntry entry value = some fat) :
    TableShape { fs with fat := fat } := by
  have written := Fat.writeFatEntry_written done
  exact ⟨written.sectorSize.trans shape.sectorSize, written.length.trans shape.length,
    written.bitmap.trans shape.bitmap, written.length ▸ shape.fits⟩

/-- One turn of the loop that adds clusters. -/
theorem exists_appended (shape : TableShape fs) (readable : fs.fat.readFatEntry last = some old)
    (exact : fs.fat.fatType.Exact last) (used : old ≠ .free)
    (free : fs.fat.readFatEntry new = some .free) (number : fs.fat.IsCluster new) :
    ∃ fat, (∀ {α : Type} (f : FatM α), (do
        writeFatEntry last (.next new)
        writeFatEntry new .endOfChain
        f : FatM α) fs = f { fs with fat := fat }) ∧
      TableShape { fs with fat := fat } ∧ fs.fat.Appended fat last new := by
  have ne : last ≠ new := by
    intro same
    rw [same, free] at readable
    cases readable
    exact used rfl
  obtain ⟨fat, linked⟩ := writeFatEntry_isSome shape readable number.toU32
  have written := Fat.writeFatEntry_written linked
  have shape' := shape.write linked
  have kept := Fat.readFatEntry_writeFatEntry_other linked exact number.exact ne
  obtain ⟨fat', ended⟩ := writeFatEntry_isSome shape' (kept.trans free)
    (show FatEntry.endOfChain.toU32 _ = some _ from rfl)
  have written' := Fat.writeFatEntry_written ended
  refine ⟨fat', ?_, shape'.write ended, ?_⟩
  · intro α f
    rw [bind_of_ok (writeFatEntry_ok linked), bind_of_ok (writeFatEntry_ok ended)]
  · have exact' : ∀ c, fs.fat.fatType.Exact c → fat.fatType.Exact c := by
      intro c exact
      rw [written.fatType]
      exact exact
    refine ⟨written'.fatType.trans written.fatType, written'.length.trans written.length, ?_,
      Fat.readFatEntry_writeFatEntry ended, ?_⟩
    · rw [Fat.readFatEntry_writeFatEntry_other ended (exact' _ number.exact) (exact' _ exact)
        ne.symm]
      exact Fat.readFatEntry_writeFatEntry linked
    · intro c notLast notNew exactC
      rw [Fat.readFatEntry_writeFatEntry_other ended (exact' _ number.exact) (exact' _ exactC)
        (Ne.symm notNew)]
      exact Fat.readFatEntry_writeFatEntry_other linked exact exactC (Ne.symm notLast)

/-- A number that no link can hold makes the loop panic. -/
theorem writeFatEntry_panics (refused : value.toU32 fs.fat.fatType = none) :
    writeFatEntry entry value fs = .error (.panic .assertion) fs := by
  have none : fs.fat.writeFatEntry entry value = none := by
    unfold Fat.writeFatEntry
    dsimp only
    rw [refused]
    cases slice? fs.fat.buffer (fs.fat.fatType.fatOffset entry) fs.fat.fatType.window <;> rfl
  unfold writeFatEntry
  rw [get_bind, none]
  rfl

theorem addClusters_none (full : fs.fat.freeEntries = []) (last toAdd : Nat) :
    addClusters last (toAdd + 1) fs = .error (.err (.fatError .notEnoughSpace)) fs := by
  have found : fs.fat.findFreeCluster = none := by
    rw [Fat.findFreeCluster_eq_head?, full]
    rfl
  unfold addClusters
  rw [get_bind, found]
  rfl

theorem addClusters_cons (frees : fs.fat.freeEntries = new :: rest)
    (last toAdd : Nat) : addClusters last (toAdd + 1) fs = (do
      writeFatEntry last (.next new)
      writeFatEntry new .endOfChain
      addClusters new toAdd : FatM Unit) fs := by
  have found : fs.fat.findFreeCluster = some new := by
    rw [Fat.findFreeCluster_eq_head?, frees]
    rfl
  rw [addClusters, get_bind, found]

/-- One turn of the loop, when the first free cluster can be linked. -/
theorem exists_addClusters_step (shape : TableShape fs)
    (readable : fs.fat.readFatEntry last = some old) (exact : fs.fat.fatType.Exact last)
    (used : old ≠ .free) (frees : fs.fat.freeEntries = new :: rest)
    (number : fs.fat.IsCluster new) (toAdd : Nat) :
    ∃ fat, addClusters last (toAdd + 1) fs = addClusters new toAdd { fs with fat := fat } ∧
      TableShape { fs with fat := fat } ∧ fs.fat.Appended fat last new ∧
      fat.freeEntries = rest := by
  have free := Fat.free_of_mem_freeEntries (frees ▸ List.mem_cons_self)
  obtain ⟨fat, run, shape', appended⟩ := exists_appended shape readable exact used free number
  refine ⟨fat, (addClusters_cons frees last toAdd).trans (run _), shape', appended, ?_⟩
  refine appended.freeEntries (fun c below => shape.exact_of_lt below) frees ?_
  rw [readable]
  exact fun same => used (Option.some.inj same)

/-- What the loop that adds clusters leaves when it runs out of free ones. -/
structure RanOut (fs : FatFilesystem) (last toAdd : Nat) (t : FatFilesystem) : Prop where
  few : fs.fat.freeEntries.length < toAdd
  numbers : ∀ c ∈ fs.fat.freeEntries, fs.fat.IsCluster c
  unchanged : fs.fat.freeEntries = [] → t = fs
  linked : ∀ new ∈ fs.fat.freeEntries.head?, t.fat.readFatEntry last = some (.next new)
  others : ∀ c, c ≠ last → fs.fat.fatType.Exact c → fs.fat.readFatEntry c ≠ some .free →
    t.fat.readFatEntry c = fs.fat.readFatEntry c

section
variable (shape : TableShape fs) (readable : fs.fat.readFatEntry last = some old)
  (exact : fs.fat.fatType.Exact last) (used : old ≠ .free)
include shape readable exact used

theorem ranOut_of_addClusters {toAdd : Nat}
    (failed : addClusters last toAdd fs = .error (.err error) t) : RanOut fs last toAdd t := by
  induction toAdd generalizing fs last old with
  | zero => cases failed
  | succ toAdd ih =>
    cases frees : fs.fat.freeEntries with
    | nil =>
      rw [addClusters_none frees] at failed
      cases failed
      refine ⟨?_, ?_, fun _ => rfl, ?_, fun _ _ _ _ => rfl⟩
      · rw [frees]
        exact Nat.succ_pos _
      · rw [frees]
        exact List.forall_mem_nil _
      · rw [frees]
        exact nofun
    | cons new rest =>
      have mem : new ∈ fs.fat.freeEntries := frees ▸ List.mem_cons_self
      have free := Fat.free_of_mem_freeEntries mem
      by_cases number : fs.fat.IsCluster new
      · obtain ⟨fat, run, shape', appended, rest'⟩ :=
          exists_addClusters_step shape readable exact used frees number toAdd
        have exact' : ∀ c, fs.fat.fatType.Exact c → fat.fatType.Exact c := by
          intro c exact
          rw [appended.fatType]
          exact exact
        have same : ∀ c, fat.IsCluster c → fs.fat.IsCluster c := by
          intro c number'
          unfold Fat.IsCluster at number' ⊢
          rwa [appended.fatType] at number'
        rw [run] at failed
        obtain ⟨few, numbers, -, -, others⟩ :=
          ih shape' appended.ends (exact' new number.exact) nofun failed
        have apart : last ≠ new := by
          intro same
          rw [same, free] at readable
          cases readable
          exact used rfl
        refine ⟨?_, ?_, ?_, ?_, ?_⟩
        · rw [frees, ← rest']
          exact Nat.succ_lt_succ few
        · rw [frees]
          refine List.forall_mem_cons.mpr ⟨number, fun c mem => same c (numbers c ?_)⟩
          exact (rest'.symm ▸ mem : c ∈ fat.freeEntries)
        · rw [frees]
          exact nofun
        · intro new' head
          rw [frees] at head
          cases head
          rw [others last apart (exact' last exact) (by rw [appended.goes]; nofun)]
          exact appended.goes
        · intro c notLast exactC notFree
          have notNew : c ≠ new := fun same => notFree (same ▸ free)
          have kept := appended.others c notLast notNew exactC
          rw [others c notNew (exact' c exactC) (by rw [kept]; exact notFree)]
          exact kept
      · have refused : (FatEntry.next new).toU32 fs.fat.fatType = none := if_neg number
        rw [addClusters_cons frees, bind_of_error (writeFatEntry_panics refused)] at failed
        cases failed

/-- The loop fails if there are too few free clusters, and every link can hold them. -/
theorem addClusters_runsOut {toAdd : Nat} (few : fs.fat.freeEntries.length < toAdd)
    (numbers : ∀ c ∈ fs.fat.freeEntries, fs.fat.IsCluster c) :
    ∃ t, addClusters last toAdd fs = .error (.err (.fatError .notEnoughSpace)) t := by
  induction toAdd generalizing fs last old with
  | zero => exact absurd few (Nat.not_lt_zero _)
  | succ toAdd ih =>
    cases frees : fs.fat.freeEntries with
    | nil => exact ⟨fs, addClusters_none frees last toAdd⟩
    | cons new rest =>
      have number := numbers new (frees ▸ List.mem_cons_self)
      obtain ⟨fat, run, shape', appended, rest'⟩ :=
        exists_addClusters_step shape readable exact used frees number toAdd
      rw [run]
      refine ih shape' appended.ends ?_ nofun ?_ ?_
      · rw [appended.fatType]
        exact number.exact
      · rw [rest']
        rw [frees] at few
        exact Nat.lt_of_succ_lt_succ few
      · intro c later
        unfold Fat.IsCluster
        rw [appended.fatType]
        rw [rest'] at later
        exact numbers c (frees ▸ List.mem_cons_of_mem new later)

end

end

/-! ## Following the chain -/

section
variable {fs : FatFilesystem} {cluster : Nat} {rest : List Nat}
variable {fat : Fat}

section
variable (linked : fs.fat.Linked (cluster :: rest))
include linked

theorem nextCluster_linked : nextCluster cluster fs = .ok rest.head? fs := by
  unfold nextCluster
  rw [get_bind, bind_of_ok (orPanic_ok linked.nextCluster_head)]
  rfl

theorem followChain_linked (inside : links ≤ rest.length) :
    followChain cluster links fs = .ok (rest.take links) fs := by
  induction links generalizing cluster rest with
  | zero => rfl
  | succ links ih =>
    cases rest with
    | nil => cases inside
    | cons next rest =>
      have followed := ih linked.tail (Nat.le_of_succ_le_succ inside)
      rw [followChain, bind_of_ok (nextCluster_linked linked), List.head?_cons,
        bind_of_ok (orPanic_ok rfl), bind_of_ok followed]
      rfl

theorem followChain_panics (beyond : rest.length < links) :
    followChain cluster links fs = .error (.panic .assertion) fs := by
  induction links generalizing cluster rest with
  | zero => cases beyond
  | succ links ih =>
    rw [followChain, bind_of_ok (nextCluster_linked linked)]
    cases rest with
    | nil => rfl
    | cons next rest =>
      rw [List.head?_cons, bind_of_ok (orPanic_ok rfl)]
      exact bind_of_error (ih linked.tail (Nat.lt_of_succ_lt_succ beyond))

end

section
variable (linked : fat.Linked (cluster :: rest))
include linked

/-- The chain from the last of the clusters that were followed. -/
theorem Fat.Linked.getLastD (inside : links ≤ rest.length) :
    fat.Linked ((rest.take links).getLastD cluster :: rest.drop links) := by
  induction links generalizing cluster rest with
  | zero => exact linked
  | succ links ih =>
    cases rest with
    | nil => cases inside
    | cons next rest =>
      rw [List.take_succ_cons, List.getLastD_cons]
      exact ih linked.tail (Nat.le_of_succ_le_succ inside)

/-- The first cluster of a chain has an entry that is not free. -/
theorem Fat.Linked.used_head : ∃ old, fat.readFatEntry cluster = some old ∧ old ≠ .free := by
  cases rest with
  | nil => exact ⟨.endOfChain, linked, nofun⟩
  | cons next rest => exact ⟨.next next, linked.1, nofun⟩

/-- No entry of a chain leads to a free cluster. -/
theorem Fat.Linked.not_next_free {next : Nat} (free : fat.readFatEntry next = some .free) :
    fat.readFatEntry cluster ≠ some (.next next) := by
  intro goes
  cases rest with
  | nil =>
    have ends : fat.readFatEntry cluster = some .endOfChain := linked
    rw [ends] at goes
    cases goes
  | cons next' rest =>
    rw [linked.1] at goes
    cases goes
    obtain ⟨old, readable, used⟩ := linked.tail.used_head
    rw [free] at readable
    cases readable
    exact used rfl

/-- The clusters of a chain have the numbers that links hold, if the first one has. -/
theorem Fat.Linked.isCluster_getLastD (number : fat.IsCluster cluster) (links : Nat) :
    fat.IsCluster ((rest.take links).getLastD cluster) := by
  induction links generalizing cluster rest with
  | zero => exact number
  | succ links ih =>
    cases rest with
    | nil => exact number
    | cons next rest =>
      rw [List.take_succ_cons, List.getLastD_cons]
      exact ih linked.tail (bounds_of_next linked.1)

end

end

/-! ## Changing the size of a file -/

/-- An error leaves every entry of the table and the size of the file. -/
def ResizesAtomically (s : Session) (size : Nat) : Prop :=
  ∀ error t, setFileSize size s = .error (.err error) t →
    (∀ c, t.fs.fat.readFatEntry c = s.fs.fat.readFatEntry c) ∧ t.inode.size = s.inode.size

section
variable {fs : FatFilesystem} {cluster : Nat} {rest : List Nat}

/-- A failure that is not an error. -/
def Failure.IsPanic : Failure → Prop
  | .err _ => False
  | .panic _ => True

theorem freeClusters_meets (clusters : List Nat) (fs : FatFilesystem) :
    Meets (freeClusters clusters) fs (fun _ _ => True) fun e _ => e.IsPanic := by
  induction clusters generalizing fs with
  | nil => trivial
  | cons cluster clusters ih =>
    refine Meets.bind (fun _ _ => True) ?_ fun _ t _ => ih t
    refine (writeFatEntry_meets fs cluster .free).mono (fun _ _ _ => trivial) fun e _ failed => ?_
    rw [failed.1]
    trivial

section
variable (linked : fs.fat.Linked (cluster :: rest))
include linked

/-- Giving clusters back does not fail. -/
theorem shrink_meets (links : Nat) :
    Meets (do
        let clusters ← followChain cluster links
        freeClusters clusters.reverse
        writeFatEntry cluster .endOfChain : FatM Unit) fs (fun _ _ => True)
      fun e _ => e.IsPanic := by
  by_cases inside : links ≤ rest.length
  · rw [meets_after (followChain_linked linked inside)]
    refine Meets.bind (fun _ _ => True) (freeClusters_meets _ fs) fun _ t _ => ?_
    refine (writeFatEntry_meets t cluster _).mono (fun _ _ _ => trivial) fun e _ failed => ?_
    rw [failed.1]
    trivial
  · refine meets_bind.mpr ((meets_of_eq_error (followChain_panics linked ?_)).mpr trivial)
    omega

theorem resizeChain_grow {current new : Nat} (grows : current < new)
    (reaches : current ≤ rest.length + 1) :
    resizeChain cluster current new fs =
      addClusters ((rest.take (current - 1)).getLastD cluster) (new - current) fs := by
  unfold resizeChain
  dsimp only
  rw [min_eq_right (le_of_lt grows),
    bind_of_ok (followChain_linked linked (by omega : current - 1 ≤ rest.length)),
    if_neg (Nat.lt_asymm grows)]

/-- A resize that is no growth along the chain does not fail with an error. -/
theorem resizeChain_meets {current new : Nat} (other : new < current ∨ rest.length + 1 < current) :
    Meets (resizeChain cluster current new) fs (fun _ _ => True) fun e _ => e.IsPanic := by
  unfold resizeChain
  by_cases inside : min new current - 1 ≤ rest.length
  · rw [meets_after (followChain_linked linked inside), if_pos (by omega)]
    exact shrink_meets (linked.getLastD inside) _
  · refine meets_bind.mpr ((meets_of_eq_error (followChain_panics linked ?_)).mpr trivial)
    omega

end

end

/-- The free clusters run out part of the way of a growth. -/
structure RunsOutPartWay (fat : Fat) (chainLength current new : Nat) : Prop where
  grows : current < new
  reaches : current ≤ chainLength
  some : fat.freeEntries ≠ []
  few : fat.freeEntries.length < new - current
  numbers : ∀ c ∈ fat.freeEntries, fat.IsCluster c

section
variable {s : Session} {size : Nat}

/-- The errors of `set_file_size` are those of the table. -/
theorem setFileSize_err {t : Session} (failed : setFileSize size s = .error (.err error) t) :
    sizeInClusters s.fs.bootSector size ≠ sizeInClusters s.fs.bootSector s.inode.size ∧
      ∃ fs, resizeChain (wrap32 s.inode.startCluster)
        (sizeInClusters s.fs.bootSector s.inode.size) (sizeInClusters s.fs.bootSector size) s.fs =
          .error (.err error) fs ∧ t = { s with fs := fs } := by
  unfold setFileSize at failed
  rw [get_bind] at failed
  by_cases changes : sizeInClusters s.fs.bootSector size ≠
      sizeInClusters s.fs.bootSector s.inode.size
  · refine ⟨changes, ?_⟩
    rw [if_pos changes] at failed
    cases run : resizeChain (wrap32 s.inode.startCluster)
        (sizeInClusters s.fs.bootSector s.inode.size)
        (sizeInClusters s.fs.bootSector size) s.fs with
    | ok _ fs =>
      rw [bind_of_ok (onFs_ok run)] at failed
      cases failed
    | error e fs =>
      rw [bind_of_error (onFs_error run)] at failed
      cases failed
      exact ⟨fs, rfl, rfl⟩
  · rw [if_neg changes] at failed
    cases failed

theorem setFileSize_of_err {fs : FatFilesystem}
    (changes : sizeInClusters s.fs.bootSector size ≠ sizeInClusters s.fs.bootSector s.inode.size)
    (failed : resizeChain (wrap32 s.inode.startCluster)
      (sizeInClusters s.fs.bootSector s.inode.size) (sizeInClusters s.fs.bootSector size) s.fs =
        .error (.err error) fs) : setFileSize size s = .error (.err error) { s with fs := fs } := by
  unfold setFileSize
  rw [get_bind]
  rw [if_pos changes]
  exact bind_of_error (onFs_error failed)

/-- A resize of a file with a well-formed chain is atomic, unless the free clusters run out part of
the way. -/
theorem resizesAtomically_iff {rest : List Nat} (shape : TableShape s.fs)
    (linked : s.fs.fat.Linked (wrap32 s.inode.startCluster :: rest))
    (number : s.fs.fat.IsCluster (wrap32 s.inode.startCluster)) :
    ResizesAtomically s size ↔ ¬ RunsOutPartWay s.fs.fat (rest.length + 1)
      (sizeInClusters s.fs.bootSector s.inode.size) (sizeInClusters s.fs.bootSector size) := by
  generalize currentEq : sizeInClusters s.fs.bootSector s.inode.size = current
  generalize newEq : sizeInClusters s.fs.bootSector size = new
  -- the cluster at which a growth starts
  have start : current ≤ rest.length + 1 → ∃ old,
      s.fs.fat.readFatEntry ((rest.take (current - 1)).getLastD (wrap32 s.inode.startCluster)) =
        some old ∧ old ≠ .free ∧ s.fs.fat.fatType.Exact
          ((rest.take (current - 1)).getLastD (wrap32 s.inode.startCluster)) := by
    intro reaches
    obtain ⟨old, readable, used⟩ := (linked.getLastD
      (by omega : current - 1 ≤ rest.length)).used_head
    exact ⟨old, readable, used, (linked.isCluster_getLastD number _).exact⟩
  constructor
  · intro atomic partWay
    obtain ⟨old, readable, used, exact⟩ := start partWay.reaches
    obtain ⟨fs, failed⟩ := addClusters_runsOut shape readable exact used partWay.few partWay.numbers
    have ranOut := ranOut_of_addClusters shape readable exact used failed
    rw [← resizeChain_grow linked partWay.grows partWay.reaches, ← currentEq, ← newEq] at failed
    have changes : sizeInClusters s.fs.bootSector size ≠
        sizeInClusters s.fs.bootSector s.inode.size := by
      rw [currentEq, newEq]
      exact ne_of_gt partWay.grows
    have kept := (atomic _ _ (setFileSize_of_err changes failed)).1
      ((rest.take (current - 1)).getLastD (wrap32 s.inode.startCluster))
    obtain ⟨new', rest', frees⟩ := List.exists_cons_of_ne_nil partWay.some
    have goes := ranOut.linked new' (by rw [frees]; rfl)
    have free := Fat.free_of_mem_freeEntries (frees ▸ List.mem_cons_self : new' ∈ _)
    exact (linked.getLastD (by have := partWay.reaches; omega)).not_next_free free
      (kept.symm.trans goes)
  · intro notPartWay error t failed
    obtain ⟨changes, fs, stopped, rfl⟩ := setFileSize_err failed
    rw [currentEq, newEq] at stopped changes
    by_cases grows : current < new ∧ current ≤ rest.length + 1
    · obtain ⟨old, readable, used, exact⟩ := start grows.2
      rw [resizeChain_grow linked grows.1 grows.2] at stopped
      have ranOut := ranOut_of_addClusters shape readable exact used stopped
      have none : s.fs.fat.freeEntries = [] := by
        by_contra some
        exact notPartWay ⟨grows.1, grows.2, some, ranOut.few, ranOut.numbers⟩
      obtain rfl := ranOut.unchanged none
      exact ⟨fun c => rfl, rfl⟩
    · exact ((resizeChain_meets linked (by omega)).of_error stopped).elim

end

/-! ### Examples -/

/-- An empty file in cluster 2 of a volume of FAT32 with the given table. -/
def fileIn (buffer : List UInt8) : Session where
  fs := ⟨0, { blankBoot with ty := .fat32 }, ⟨buffer, 512, .fat32, false, [0]⟩, ⟨fun _ => 0, none⟩,
    SortedMap.empty⟩
  inode := ⟨⟨['f'], 0x20, 2, 2, 0⟩, 0⟩
  accessHelper := ⟨0, 0⟩

/-- A table without a free entry. -/
def fullTable : List UInt8 := List.replicate 512 0xFF

/-- A table in which only the cluster 3 is free. -/
def crampedTable : List UInt8 :=
  List.replicate 12 0xFF ++ List.replicate 4 0 ++ List.replicate 496 0xFF

theorem tableShape_fileIn {buffer : List UInt8} (length : buffer.length = 512) :
    TableShape (fileIn buffer).fs :=
  ⟨rfl, length, show 1 = (wrap32 (1 * 1) + 63) / 64 by decide, length ▸ (by decide)⟩

/-- The error of a call and an entry of the table after it. -/
def failedWith (entry : Nat) :
    EStateM.Result Failure Session Unit → Option (FileSystemError × Option FatEntry)
  | .error (.err error) t => some (error, t.fs.fat.readFatEntry entry)
  | _ => none

/-- On a full volume a file that is to grow by one cluster fails, and everything is left as it
was. -/
theorem resizesAtomically_full :
    failedWith 2 (setFileSize 1024 (fileIn fullTable)) =
        some (.fatError .notEnoughSpace, some .endOfChain) ∧
      ResizesAtomically (fileIn fullTable) 1024 := by
  have linked : (fileIn fullTable).fs.fat.Linked [2] := by
    show Fat.readFatEntry _ 2 = some .endOfChain
    decide +kernel
  refine ⟨by decide +kernel, (resizesAtomically_iff (tableShape_fileIn (List.length_replicate ..))
    linked ⟨by decide, by decide⟩).mpr fun partWay => partWay.some ?_⟩
  decide +kernel

/-- A file that is to grow by two clusters keeps the one there was when it fails. -/
theorem failed_resize_keeps_cluster :
    (fileIn crampedTable).fs.fat.readFatEntry 2 = some .endOfChain ∧
      failedWith 2 (setFileSize 1536 (fileIn crampedTable)) =
        some (.fatError .notEnoughSpace, some (.next 3)) ∧
      ¬ ResizesAtomically (fileIn crampedTable) 1536 := by
  have ends : (fileIn crampedTable).fs.fat.readFatEntry 2 = some .endOfChain := by decide +kernel
  have failed : failedWith 2 (setFileSize 1536 (fileIn crampedTable)) =
      some (.fatError .notEnoughSpace, some (.next 3)) := by
    decide +kernel
  refine ⟨ends, failed, fun atomic => ?_⟩
  cases run : setFileSize 1536 (fileIn crampedTable) with
  | ok _ t =>
    rw [run] at failed
    cases failed
  | error e t =>
    rw [run] at failed
    cases e with
    | panic why => cases failed
    | err error =>
      have kept := (atomic error t run).1 2
      rw [ends] at kept
      have entry := congrArg Prod.snd (Option.some.inj failed)
      exact absurd (entry.symm.trans kept) (by decide)

end Emerald.Fs
