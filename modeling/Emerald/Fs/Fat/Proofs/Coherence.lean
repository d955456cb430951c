
import Emerald.Fs.Fat.Proofs.Contents

/-!
# Coherence of the cluster cache

The open files of a volume share the cached clusters. As long as no write extends a file and the
disk fails no access, a read through any of them gives the bytes that were last written through any
of them, and once they are closed the disk has these bytes.
-/

namespace Emerald.Fs

open FatFilesystem

variable {id position : Nat} {file : OpenFile}

/-- A file as the volume stores it. -/
structure StoredFile where
  inode : FileNode
  chain : List Nat

variable (catalogue : List StoredFile)

/-- The clusters of the files of a volume. -/
def fileClusters (cluster : Nat) : Prop :=
  ∃ file ∈ catalogue, cluster ∈ file.chain

/-- The files of a volume: every chain is linked in the table, has room for the size of the file
and shares no cluster with another, and the directory entries are in use and lie elsewhere. -/
structure WellFormed (fs : FatFilesystem) (catalogue : List StoredFile) : Prop where
  distinct : ∀ f ∈ catalogue, ∀ g ∈ catalogue, f.inode = g.inode → f = g
  disjoint : ∀ f ∈ catalogue, ∀ g ∈ catalogue, ∀ c ∈ f.chain, c ∈ g.chain → f = g
  linked : ∀ f ∈ catalogue, fs.fat.Linked f.chain
  start : ∀ f ∈ catalogue, ∀ first, f.chain.head? = some first →
    first = wrap32 f.inode.startCluster
  data : ∀ f ∈ catalogue, ∀ c ∈ f.chain, fs.bootSector.DataCluster c
  size : ∀ f ∈ catalogue, f.inode.size < 2 ^ 32
  covered : ∀ f ∈ catalogue, f.inode.size ≤ f.chain.length * fs.bootSector.bytesPerCluster
  entry : ∀ f ∈ catalogue, DirEntryOk fs f.inode
  outside : ∀ f ∈ catalogue, ∀ a, fs.bootSector.InEntry f.inode a → ¬fs.bootSector.InTable a
  apart : ∀ f ∈ catalogue, ∀ g ∈ catalogue, ∀ c ∈ g.chain,
    ∀ a, fs.bootSector.InEntry f.inode a → ¬fs.bootSector.InCluster c a

/-- A byte of the file with the given chain on the disk. -/
def FatFilesystem.fileByteOnDisk (fs : FatFilesystem) (chain : List Nat) (position : Nat) : UInt8 :=
  match chain[position / fs.bootSector.bytesPerCluster]? with
  | some cluster => fs.clusterByteOnDisk cluster (position % fs.bootSector.bytesPerCluster)
  | none => 0

/-- With nothing cached the open files see the disk. -/
theorem fileByte_of_uncached {fs : FatFilesystem}
    (uncached : ∀ c, SortedMap.get? fs.clusterCache c = none) (chain : List Nat) :
    fs.fileByte chain = fs.fileByteOnDisk chain := by
  funext position
  unfold FatFilesystem.fileByte fileByteOnDisk
  cases chain[position / fs.bootSector.bytesPerCluster]? with
  | none => rfl
  | some c => exact clusterByte_of_absent (uncached c) _

/-- The open files of a volume, and the bytes that were last written to each file. -/
structure Traced where
  world : FatWorld
  contents : FileNode → Nat → UInt8

namespace Traced

/-- What a call changes in the files as their users know them. -/
def contentsAfter (o : Traced) : FileCall → FileNode → Nat → UInt8
  | .writeFile id position buf _ =>
    match o.world.files.get? id with
    | some file =>
      Function.update o.contents file.inode (writeBytes (o.contents file.inode) position buf)
    | none => o.contents
  | _ => o.contents

def step (o : Traced) (call : FileCall) : Option Traced :=
  (o.world.step call).map fun world => ⟨world, o.contentsAfter call⟩

/-- The calls on the files of the catalogue in which the disk fails no access and no write goes
beyond the end of its file. -/
def Allowed (o : Traced) : FileCall → Prop
  | .openFile _ inode => ∃ f ∈ catalogue, f.inode = inode
  | .readFile _ _ _ faultIn => faultIn = none
  | .writeFile id position buf faultIn => faultIn = none ∧
      ∀ file, o.world.files.get? id = some file → position + buf.length ≤ file.inode.size
  | .closeFile _ faultIn => faultIn = none

instance : DecidableRel (Allowed catalogue) := fun o call =>
  match call with
  | .openFile _ inode => inferInstanceAs (Decidable (∃ f ∈ catalogue, f.inode = inode))
  | .readFile _ _ _ faultIn | .closeFile _ faultIn => inferInstanceAs (Decidable (faultIn = none))
  | .writeFile id position buf faultIn => inferInstanceAs (Decidable (faultIn = none ∧
      ∀ file ∈ o.world.files.get? id, position + buf.length ≤ file.inode.size))

/-- A mounted volume with nothing open. -/
structure Initial (catalogue : List StoredFile) (o : Traced) : Prop where
  mounted : ∃ startLba boot disk, mount startLba boot disk = .ok () o.world.fs
  healthy : o.world.fs.disk.faultIn = none
  files : o.world.files = SortedMap.empty
  wellFormed : WellFormed o.world.fs catalogue
  contents : ∀ f ∈ catalogue, ∀ p, p < f.inode.size →
    o.contents f.inode p = o.world.fs.fileByteOnDisk f.chain p

/-- The states reached from a mounted volume by allowed calls. -/
def Reached : Traced → Prop :=
  Reachable (fun o call t => o.step call = some t) (Allowed catalogue) (Initial catalogue)

end Traced

/-- The files on the volume are those that their users know. -/
structure Coherent (catalogue : List StoredFile) (o : Traced) : Prop where
  volume : VolumeOk (fileClusters catalogue) o.world.fs
  distinct : ∀ f ∈ catalogue, ∀ g ∈ catalogue, f.inode = g.inode → f = g
  disjoint : ∀ f ∈ catalogue, ∀ g ∈ catalogue, ∀ c ∈ f.chain, c ∈ g.chain → f = g
  file : ∀ f ∈ catalogue, FileOk (fileClusters catalogue) f.chain o.world.fs f.inode
  size : ∀ f ∈ catalogue, f.inode.size < 2 ^ 32
  covered : ∀ f ∈ catalogue,
    f.inode.size ≤ f.chain.length * o.world.fs.bootSector.bytesPerCluster
  counted : o.world.CountsMatch
  handle : ∀ id file, o.world.files.get? id = some file → ∃ f ∈ catalogue, f.inode = file.inode ∧
    (file.accessHelper.currentCluster = 0 ∨
      f.chain[file.accessHelper.clusterIndex]? = some file.accessHelper.currentCluster)
  contents : ∀ f ∈ catalogue, ∀ p, p < f.inode.size →
    o.contents f.inode p = o.world.fs.fileByte f.chain p

section
variable {catalogue : List StoredFile} {o : Traced} {f : StoredFile} {w : FatWorld} {t : Session}

theorem session_healthy (healthy : w.fs.disk.faultIn = none) (file : OpenFile) :
    w.session file none = ⟨w.fs, file.inode, file.accessHelper⟩ := by
  unfold FatWorld.session
  rw [← healthy]

/-- An open file at the start of a call. -/
theorem Coherent.session (coherent : Coherent catalogue o)
    (found : o.world.files.get? id = some file) :
    ∃ f ∈ catalogue, f.inode = file.inode ∧
      FileOk (fileClusters catalogue) f.chain o.world.fs file.inode ∧
      Positioned f.chain ⟨o.world.fs, file.inode, file.accessHelper⟩ := by
  obtain ⟨f, mem, same, position⟩ := coherent.handle id file found
  refine ⟨f, mem, same, same ▸ coherent.file f mem, ?_⟩
  by_cases nowhere : file.accessHelper.currentCluster = 0
  · exact .inl nowhere
  · rcases position with zero | link
    · exact absurd zero nowhere
    · exact .inr ⟨rfl, link, coherent.counted.1 id file found nowhere⟩

theorem mount_tableOk {startLba : Nat} {boot : FatBootSector} {disk : Disk} {fs : FatFilesystem}
    (mounted : mount startLba boot disk = .ok () fs) :
    TableOk fs ∧ fs.clusterCache = SortedMap.empty := by
  obtain ⟨shape, marked⟩ := TableCall.mount_marked mounted
  obtain ⟨⟨f, rfl⟩, -⟩ := TableCall.mount_eq mounted
  refine ⟨⟨shape, marked, ?_⟩, rfl⟩
  intro sector bit
  unfold Fat.isDirtySector at bit
  rw [List.getD_eq_getElem?_getD, List.getElem?_replicate] at bit
  split at bit <;> simp at bit

theorem Traced.Initial.coherent (initial : Initial catalogue o) : Coherent catalogue o := by
  obtain ⟨⟨startLba, boot, disk, mounted⟩, healthy, closed, wellFormed, contents⟩ := initial
  obtain ⟨table, empty⟩ := mount_tableOk mounted
  have none : ∀ c, SortedMap.get? o.world.fs.clusterCache c = none := by
    intro c
    rw [empty]
    rfl
  constructor
  case volume =>
    refine ⟨healthy, table, ?_, ?_, ?_⟩
    · rintro c ⟨f, mem, here⟩
      exact wellFormed.data f mem c here
    · intro c entry found
      cases (none c).symm.trans found
    · intro c entry found
      cases (none c).symm.trans found
  case distinct => exact wellFormed.distinct
  case disjoint => exact wellFormed.disjoint
  case file =>
    intro f mem
    refine ⟨⟨wellFormed.entry f mem, wellFormed.outside f mem, ?_⟩,
      wellFormed.linked f mem,
      wellFormed.start f mem, fun c here => ⟨f, mem, here⟩⟩
    rintro c ⟨g, other, here⟩
    exact wellFormed.apart f mem g other c here
  case size => exact wellFormed.size
  case covered => exact wellFormed.covered
  case counted =>
    refine o.world.countsMatch_iff.mpr fun c => .inl ⟨?_, ?_⟩
    · unfold ClusterCache.counts
      rw [none c]
      rfl
    · rw [closed]
      rfl
  case handle =>
    intro id file found
    rw [closed] at found
    cases found
  case contents =>
    intro f mem p below
    rw [contents f mem p below, fileByte_of_uncached none]

/-- A call that returns, in a run in which the disk fails no access. -/
theorem operate_returns {α : Type} (healthy : w.fs.disk.faultIn = none)
    (found : w.files.get? id = some file) {p : FileM α} {post : α → Session → Prop}
    (run : Returns p ⟨w.fs, file.inode, file.accessHelper⟩ post)
    (done : w.operate id none p = some t) : ∃ a, post a t := by
  obtain ⟨file', found', after, -⟩ := FatWorld.operate_eq_some done
  cases found.symm.trans found'
  rw [session_healthy healthy] at after
  obtain ⟨a, t', ran, met⟩ := run.exists
  rw [ran] at after
  cases after
  exact ⟨a, met⟩

/-- A read or a write through an open file. -/
theorem Coherent.access (coherent : Coherent catalogue o)
    (mem : f ∈ catalogue) (same : f.inode = file.inode) {buf : FileAccessBuffer} {n : Nat}
    (accessed : Accessed (fileClusters catalogue) f.chain buf position 0 n
      ⟨o.world.fs, file.inode, file.accessHelper⟩ t)
    (counted : (FatWorld.mk t.fs (o.world.files.insert id ⟨t.inode, t.accessHelper⟩)).CountsMatch)
    {contents : FileNode → Nat → UInt8} (changed : ∀ p, p < f.inode.size →
      contents f.inode p = buf.apply (o.world.fs.fileByte f.chain) position 0 n p)
    (others : ∀ inode, inode ≠ f.inode → contents inode = o.contents inode) :
    Coherent catalogue ⟨⟨t.fs, o.world.files.insert id ⟨t.inode, t.accessHelper⟩⟩, contents⟩ := by
  have kept := accessed.moved.kept
  have inode : t.inode = file.inode := accessed.moved.inode
  have boot : t.fs.bootSector = o.world.fs.bootSector := kept.bootSector
  refine ⟨kept.volume, coherent.distinct, coherent.disjoint,
    fun g other => (coherent.file g other).of_kept kept, coherent.size, ?_, counted, ?_, ?_⟩
  · rw [boot]
    exact coherent.covered
  · intro key other foundOther
    rw [SortedMap.get?_insert] at foundOther
    split at foundOther
    · cases foundOther
      refine ⟨f, mem, same.trans inode.symm, ?_⟩
      rcases accessed.positioned with nowhere | here
      · exact .inl nowhere
      · exact .inr here.link
    · exact coherent.handle key other foundOther
  · intro g other p below
    show contents g.inode p = t.fs.fileByte g.chain p
    by_cases this : g = f
    · subst g
      rw [changed p below, ← accessed.content]
    · have ne : g.inode ≠ f.inode :=
        fun equal => this (coherent.distinct g other f mem equal)
      have apart : ∀ c ∈ g.chain, ¬buf.changes f.chain c := by
        intro c here changes
        cases buf with
        | read length => exact changes
        | write bytes => exact this (coherent.disjoint g other f mem c here changes)
      rw [others g.inode ne, coherent.contents g other p below]
      exact congrFun (kept.fileByte (coherent.file g other).mine apart).symm p

theorem readFile_panics (large : 2 ^ 32 ≤ position) (length : Nat) (s : Session) :
    readFile position length s = .error (.panic .assertion) s := by
  have refused : decide (position < 2 ^ 32) = false := decide_eq_false (by omega)
  show EStateM.bind (onFs (assertThat (decide (position < 2 ^ 32)))) _ s = _
  rw [refused]
  rfl

section
variable (coherent : Coherent catalogue o)
include coherent

section
variable (found : o.world.files.get? id = some file)
include found

/-- A read through an open file gives the bytes that its users know. -/
theorem Coherent.readFile_returns (small : position < 2 ^ 32) (length : Nat) :
    ∃ f ∈ catalogue, f.inode = file.inode ∧
      Returns (readFile position length) ⟨o.world.fs, file.inode, file.accessHelper⟩ fun r t =>
        r = (min (wrap32 length) (file.inode.size - position),
          readBytes (o.contents file.inode) position
            (min (wrap32 length) (file.inode.size - position))) ∧
        Accessed (fileClusters catalogue) f.chain (.read length) position 0
          (min (wrap32 length) (file.inode.size - position))
          ⟨o.world.fs, file.inode, file.accessHelper⟩ t := by
  obtain ⟨f, mem, same, ok, positioned⟩ := coherent.session found
  have size : wrap32 file.inode.size = file.inode.size := by
    rw [← same]
    exact Nat.mod_eq_of_lt (coherent.size f mem)
  have covered := coherent.covered f mem
  rw [same, ← size] at covered
  refine ⟨f, mem, same, ?_⟩
  refine (Fs.readFile_returns coherent.volume ok positioned covered small length).mono ?_
  rw [size]
  rintro _ t ⟨rfl, accessed⟩
  refine ⟨?_, accessed⟩
  congr 1
  refine readBytes_congr fun p above below => ?_
  rw [← same]
  exact (coherent.contents f mem p (by rw [same]; omega)).symm

/-- A write through an open file that stays inside the file. -/
theorem Coherent.writeFile_returns {buf : List UInt8}
    (inside : position + buf.length ≤ file.inode.size) :
    ∃ f ∈ catalogue, f.inode = file.inode ∧
      Returns (writeFile position buf) ⟨o.world.fs, file.inode, file.accessHelper⟩ fun r t =>
        r = buf.length ∧ Accessed (fileClusters catalogue) f.chain (.write buf) position 0
          buf.length ⟨o.world.fs, file.inode, file.accessHelper⟩ t := by
  obtain ⟨f, mem, same, ok, positioned⟩ := coherent.session found
  have covered := coherent.covered f mem
  have small := coherent.size f mem
  rw [same] at covered small
  exact ⟨f, mem, same, Fs.writeFile_returns coherent.volume ok positioned covered small inside⟩

theorem Coherent.closeFile_returns :
    Returns closeFile ⟨o.world.fs, file.inode, file.accessHelper⟩ fun _ t =>
      Moved (fileClusters catalogue) (fun _ => False)
        ⟨o.world.fs, file.inode, file.accessHelper⟩ t := by
  obtain ⟨f, mem, same, ok, -⟩ := coherent.session found
  refine (Fs.closeFile_returns (fun _ => False) coherent.volume ok).mono ?_
  rintro - t ⟨moved, -⟩
  exact moved

end

/-- Every allowed call keeps the files of the volume those that their users know. -/
theorem Coherent.step {call : FileCall} (allowed : o.Allowed catalogue call) {t : Traced}
    (traced : o.step call = some t) : Coherent catalogue t := by
  obtain ⟨w, done, rfl⟩ := Option.map_eq_some_iff.mp traced
  have healthy := coherent.volume.healthy
  have counts := FatWorld.countsMatch_step_iff coherent.counted done
  cases call with
  | openFile id inode =>
    obtain ⟨f, mem, rfl⟩ := allowed
    have counted := counts.mpr trivial
    simp only [FatWorld.step] at done
    split at done
    · cases done
      refine ⟨coherent.volume, coherent.distinct, coherent.disjoint, coherent.file, coherent.size,
        coherent.covered, counted, ?_, coherent.contents⟩
      intro key other found
      rw [SortedMap.get?_insert] at found
      split at found
      · cases found
        exact ⟨f, mem, rfl, .inl rfl⟩
      · exact coherent.handle key other found
    · cases done
  | readFile id position length faultIn =>
    cases (allowed : faultIn = none)
    have counted := counts.mpr rfl
    obtain ⟨u, operated, rfl⟩ := Option.map_eq_some_iff.mp done
    obtain ⟨file, found, after, -⟩ := FatWorld.operate_eq_some operated
    by_cases small : position < 2 ^ 32
    · obtain ⟨f, mem, same, run⟩ := coherent.readFile_returns found small length
      obtain ⟨r, -, accessed⟩ := operate_returns healthy found run operated
      apply coherent.access mem same accessed counted
      · intro p below
        exact coherent.contents f mem p below
      · intro inode _
        rfl
    · rw [readFile_panics (by omega)] at after
      cases after
  | writeFile id position buf faultIn =>
    obtain ⟨rfl, inside⟩ := allowed
    have counted := counts.mpr rfl
    obtain ⟨u, operated, rfl⟩ := Option.map_eq_some_iff.mp done
    obtain ⟨file, found, after, -⟩ := FatWorld.operate_eq_some operated
    obtain ⟨f, mem, same, run⟩ := coherent.writeFile_returns found (inside file found)
    obtain ⟨r, -, accessed⟩ := operate_returns healthy found run operated
    have contents : o.contentsAfter (.writeFile id position buf none) =
        Function.update o.contents file.inode
          (writeBytes (o.contents file.inode) position buf) := by
      unfold Traced.contentsAfter
      dsimp only
      rw [found]
    rw [contents]
    apply coherent.access mem same accessed counted
    · intro p below
      rw [same, Function.update_self, ← same]
      show _ = writeBytes _ position ((buf.drop 0).take buf.length) p
      rw [List.drop_zero, List.take_length]
      exact writeBytes_congr (coherent.contents f mem p below) ..
    · intro inode other
      rw [same] at other
      exact Function.update_of_ne other ..
  | closeFile id faultIn =>
    cases (allowed : faultIn = none)
    have counted := counts.mpr trivial
    obtain ⟨u, operated, rfl⟩ := Option.map_eq_some_iff.mp done
    obtain ⟨file, found, after, -⟩ := FatWorld.operate_eq_some operated
    obtain ⟨_, moved⟩ := operate_returns healthy found (coherent.closeFile_returns found) operated
    have kept := moved.kept
    refine ⟨kept.volume, coherent.distinct, coherent.disjoint,
      fun g other => (coherent.file g other).of_kept kept, coherent.size, ?_, counted, ?_, ?_⟩
    · rw [kept.bootSector]
      exact coherent.covered
    · intro key other foundOther
      exact coherent.handle key other (SortedMap.get?_erase_eq_some.mp foundOther).2
    · intro g other p below
      show o.contents g.inode p = u.fs.fileByte g.chain p
      rw [coherent.contents g other p below,
        kept.fileByte (coherent.file g other).mine fun _ _ never => never]

end

theorem Traced.coherent_of_reached : ∀ o, Reached catalogue o → Coherent catalogue o := by
  refine Reachable.invariant ?_ ?_
  · intro o initial
    exact initial.coherent
  · intro o call t coherent allowed done
    exact coherent.step allowed done

/-- With no file open the disk has what the files were last known to be. -/
theorem Coherent.onDisk (coherent : Coherent catalogue o) (closed : o.world.files = SortedMap.empty)
    (mem : f ∈ catalogue) {p : Nat} (below : p < f.inode.size) :
    o.world.fs.fileByteOnDisk f.chain p = o.contents f.inode p := by
  -- a cached cluster would have a user
  have uncached : ∀ c, SortedMap.get? o.world.fs.clusterCache c = none := by
    intro c
    cases found : SortedMap.get? o.world.fs.clusterCache c with
    | none => rfl
    | some entry =>
      have used := (coherent.volume.cache c entry found).used
      have count := coherent.counted.2 c entry found
      rw [closed] at count
      change entry.referenceCount = 0 at count
      omega
  rw [coherent.contents f mem p below, fileByte_of_uncached uncached]

/-- In every run of reads and of writes that extend no file, through any number of open files and
without disk errors, a read gives the bytes that were written last, and after all files are closed
the disk has them. -/
theorem Traced.cache_coherent (catalogue : List StoredFile) (o : Traced)
    (reached : Reached catalogue o) :
    (∀ id file, o.world.files.get? id = some file →
      (∀ position length r t, readFile position length (o.world.session file none) = .ok r t →
        r = (min (wrap32 length) (file.inode.size - position),
          readBytes (o.contents file.inode) position
            (min (wrap32 length) (file.inode.size - position)))) ∧
      (∀ position length, position < 2 ^ 32 →
        ∃ r t, readFile position length (o.world.session file none) = .ok r t) ∧
      (∀ position buf, position + buf.length ≤ file.inode.size →
        ∃ t, writeFile position buf (o.world.session file none) = .ok buf.length t) ∧
      ∃ t, closeFile (o.world.session file none) = .ok () t) ∧
    (o.world.files = SortedMap.empty → ∀ f ∈ catalogue, ∀ p, p < f.inode.size →
      o.world.fs.fileByteOnDisk f.chain p = o.contents f.inode p) := by
  have coherent := coherent_of_reached o reached
  refine ⟨fun id file found => ?_, fun closed f mem p below =>
    coherent.onDisk closed mem below⟩
  rw [session_healthy coherent.volume.healthy]
  refine ⟨?_, ?_, ?_, ?_⟩
  · intro position length r t ran
    by_cases small : position < 2 ^ 32
    · obtain ⟨f, -, -, run⟩ := coherent.readFile_returns found small length
      exact (Meets.of_ok run ran).1
    · rw [readFile_panics (by omega)] at ran
      cases ran
  · intro position length small
    obtain ⟨f, -, -, run⟩ := coherent.readFile_returns found small length
    obtain ⟨r, t, ran, -⟩ := run.exists
    exact ⟨r, t, ran⟩
  · intro position buf inside
    obtain ⟨f, -, -, run⟩ := coherent.writeFile_returns found inside
    obtain ⟨_, t, ran, rfl, -⟩ := run.exists
    exact ⟨t, ran⟩
  · obtain ⟨_, t, ran, -⟩ := (coherent.closeFile_returns found).exists
    exact ⟨t, ran⟩

end

/-- A file of three bytes in the second cluster, with the first directory entry. -/
def smallFile : StoredFile := ⟨⟨⟨['A'], 0x20, 2, 2, 0⟩, 3⟩, [2]⟩

/-- The blank volume with this file. -/
def smallDisk : Disk where
  bytes a :=
    if a = 515 then 0xFF else if a = 516 then 0x0F else if a = 1024 then 0x41
    else if a = 1024 + 11 then 0x20 else if a = 1024 + 26 then 2 else if a = 1024 + 28 then 3 else 0
  faultIn := none

/-- The volume after its mount. -/
def smallMounted : FatFilesystem :=
  match mount 0 blankBoot smallDisk with
  | .ok _ fs => fs
  | .error _ fs => fs

theorem smallMounted_bootSector : smallMounted.bootSector = blankBoot := rfl

theorem wellFormed_small : WellFormed smallMounted [smallFile] := by
  have chain : smallFile.chain = [2] := rfl
  have entry : blankBoot.entryAddr smallFile.inode = 1024 := by decide +kernel
  have table : blankBoot.fatStartSector * blankBoot.bytesPerSector +
      blankBoot.bytesPerSector * blankBoot.fatsSizeInSectors = 1024 := by decide +kernel
  have cluster : blankBoot.clusterAddr 2 = 1536 := by decide +kernel
  constructor <;> simp only [List.mem_singleton, forall_eq, chain, smallMounted_bootSector]
  case linked =>
    show smallMounted.fat.readFatEntry 2 = some .endOfChain
    decide +kernel
  case start =>
    rintro first ⟨⟩
    rfl
  case data => decide +kernel
  case size => decide
  case covered => decide +kernel
  case entry =>
    exact ⟨by decide, by decide +kernel, by decide +kernel⟩
  case outside =>
    intro a inEntry inTable
    unfold FatBootSector.InEntry at inEntry
    unfold FatBootSector.InTable at inTable
    omega
  case apart =>
    intro a inEntry inCluster
    unfold FatBootSector.InEntry directoryEntrySize at inEntry
    unfold FatBootSector.InCluster at inCluster
    omega
  all_goals simp

namespace Traced

/-- The volume with nothing open. -/
def small : Traced := ⟨⟨smallMounted, SortedMap.empty⟩, fun _ _ => 0⟩

theorem initial_small : Initial [smallFile] small where
  mounted := ⟨0, blankBoot, smallDisk, rfl⟩
  healthy := rfl
  files := rfl
  wellFormed := wellFormed_small
  contents := by
    decide +kernel

/-- A byte is written through the first of two handles: the file has the bytes 0, 7 and 0. -/
theorem reached_twoHandles :
    ∃ o file, Reached [smallFile] o ∧ o.world.files.get? 1 = some file ∧
      file.inode = smallFile.inode ∧ readBytes (o.contents smallFile.inode) 0 3 = [0, 7, 0] := by
  obtain ⟨o, reached, handle, contents⟩ : ∃ o, Reached [smallFile] o ∧
      (o.world.files.get? 1).map (fun file => file.inode) = some smallFile.inode ∧
      readBytes (o.contents smallFile.inode) 0 3 = [0, 7, 0] :=
    Reachable.exists_of_run initial_small [.openFile 0 smallFile.inode,
      .openFile 1 smallFile.inode, .writeFile 0 1 [7] none] (by decide +kernel)
  obtain ⟨file, found, inode⟩ := Option.map_eq_some_iff.mp handle
  exact ⟨o, file, reached, found, inode, contents⟩

/-- What is written through one handle is read through another. -/
theorem cache_coherent_twoHandles :
    ∃ o file t, Reached [smallFile] o ∧ o.world.files.get? 1 = some file ∧
      readFile 0 3 (o.world.session file none) = .ok (3, [0, 7, 0]) t := by
  obtain ⟨o, file, reached, found, inode, contents⟩ := reached_twoHandles
  obtain ⟨values, returns, -⟩ := (cache_coherent [smallFile] o reached).1 1 file found
  obtain ⟨r, t, read⟩ := returns 0 3 (by decide)
  have value := values 0 3 r t read
  rw [inode] at value
  refine ⟨o, file, t, reached, found, ?_⟩
  rw [read, value, show min (wrap32 3) (smallFile.inode.size - 0) = 3 by decide +kernel, contents]

end Traced

end Emerald.Fs
