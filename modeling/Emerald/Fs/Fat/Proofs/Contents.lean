
import Emerald.Fs.Fat.Proofs.Chains
import Emerald.Fs.Fat.Proofs.Views
import Emerald.Fs.Fat.Proofs.ReferenceCounts

/-!
# The contents of a file

A file is the bytes of the clusters of its chain, one after the other. `read_write_file` reads these
bytes or replaces them, whichever clusters it has to release and lock on its way.
-/

namespace Emerald.Fs

open FatFilesystem

variable {offset k maxToAccess accessed position : Nat} {entry : ClusterCacheEntry}
  {buf : FileAccessBuffer}
variable {cluster : Nat}

/-- A byte of the file with the given chain, as the open files see it. -/
def FatFilesystem.fileByte (fs : FatFilesystem) (chain : List Nat) (position : Nat) : UInt8 :=
  match chain[position / fs.bootSector.bytesPerCluster]? with
  | some cluster => fs.clusterByte cluster (position % fs.bootSector.bytesPerCluster)
  | none => 0

/-- A file of the volume: its node and the chain of its clusters. -/
structure FileOk (files : Nat → Prop) (chain : List Nat) (fs : FatFilesystem) (inode : FileNode) :
    Prop where
  node : NodeOk files fs inode
  linked : fs.fat.Linked chain
  start : ∀ first, chain.head? = some first → first = wrap32 inode.startCluster
  mine : ∀ c ∈ chain, files c

/-- The access helper is at a cluster of the chain that is cached. -/
structure AtCluster (chain : List Nat) (s : Session) (k cluster : Nat) : Prop where
  helper : s.accessHelper = ⟨cluster, k⟩
  link : chain[k]? = some cluster
  cached : ∃ entry, SortedMap.get? s.fs.clusterCache cluster = some entry

/-- The access helper is at no cluster or at one of the chain. -/
def Positioned (chain : List Nat) (s : Session) : Prop :=
  s.accessHelper.currentCluster = 0 ∨
    AtCluster chain s s.accessHelper.clusterIndex s.accessHelper.currentCluster

/-- What an operation of a file keeps besides the contents of the clusters it changes. -/
structure Moved (files changed : Nat → Prop) (s t : Session) : Prop where
  inode : t.inode = s.inode
  kept : Kept files changed s.fs s.inode t.fs

section
variable {files changed : Nat → Prop} {chain : List Nat} {fs t : FatFilesystem} {inode : FileNode}
variable {part : List UInt8}

theorem FileOk.of_kept (file : FileOk files chain fs inode) {other : FileNode}
    (kept : Kept files changed fs other t) : FileOk files chain t inode :=
  ⟨kept.node file.node, file.linked.congr fun c _ =>
    Fat.readFatEntry_congr kept.buffer kept.fatType c, file.start, file.mine⟩

theorem Kept.fileByte (kept : Kept files changed fs inode t)
    (mine : ∀ c ∈ chain, files c) (same : ∀ c ∈ chain, ¬changed c) :
    t.fileByte chain = fs.fileByte chain := by
  funext position
  unfold FatFilesystem.fileByte
  rw [kept.bootSector]
  cases found : chain[position / fs.bootSector.bytesPerCluster]? with
  | none => rfl
  | some c =>
    have mem := List.mem_of_getElem? found
    exact kept.view c (mine c mem) (same c mem) _ (Nat.mod_lt _ fs.bootSector.bytesPerCluster_pos)

theorem fileByte_at (chain : List Nat) (k : Nat) (below : offset < fs.bootSector.bytesPerCluster) :
    fs.fileByte chain (k * fs.bootSector.bytesPerCluster + offset) =
      match chain[k]? with
      | some cluster => fs.clusterByte cluster offset
      | none => 0 := by
  have index :
      (k * fs.bootSector.bytesPerCluster + offset) / fs.bootSector.bytesPerCluster = k := by
    rw [mul_comm, Nat.mul_add_div fs.bootSector.bytesPerCluster_pos, Nat.div_eq_of_lt below,
      add_zero]
  have rest : (k * fs.bootSector.bytesPerCluster + offset) % fs.bootSector.bytesPerCluster =
      offset := by
    rw [mul_comm, Nat.mul_add_mod, Nat.mod_eq_of_lt below]
  unfold FatFilesystem.fileByte
  rw [index, rest]

theorem fileByte_eq (link : chain[k]? = some cluster)
    (below : offset < fs.bootSector.bytesPerCluster) :
    fs.fileByte chain (k * fs.bootSector.bytesPerCluster + offset) =
      fs.clusterByte cluster offset := by
  rw [fileByte_at chain k below, link]

/-- The bytes in a cached cluster are bytes of the file. -/
theorem slice?_cached {n : Nat} (link : chain[k]? = some cluster)
    (found : SortedMap.get? fs.clusterCache cluster = some entry) (ok : EntryOk fs cluster entry)
    (below : offset + n ≤ fs.bootSector.bytesPerCluster) :
    slice? entry.data offset n =
      some (readBytes (fs.fileByte chain) (k * fs.bootSector.bytesPerCluster + offset) n) := by
  refine slice?_eq_some_iff.mpr ⟨by rwa [ok.length], ?_⟩
  apply List.ext_getElem?
  intro i
  by_cases inside : i < n
  · rw [List.getElem?_take_of_lt inside, List.getElem?_drop, getElem?_readBytes _ _ inside,
      add_assoc, fileByte_eq link (by omega)]
    exact clusterByte_of_cached found ok (by omega)
  · rw [List.getElem?_eq_none (by rw [List.length_take]; omega),
      List.getElem?_eq_none (by rw [length_readBytes]; omega)]

/-! ## One turn of the loop -/

namespace FileAccessBuffer

/-- The bytes that an access gives when the file has these contents. -/
def result (buf : FileAccessBuffer) (content : Nat → UInt8) (position n : Nat) : List UInt8 :=
  match buf with
  | read _ => readBytes content position n
  | write _ => []

/-- The contents of the file after `n` bytes are accessed, from the given one of the buffer on. -/
def apply (buf : FileAccessBuffer) (content : Nat → UInt8) (position accessed n : Nat) :
    Nat → UInt8 :=
  match buf with
  | read _ => content
  | write bytes => writeBytes content position ((bytes.drop accessed).take n)

/-- The clusters that an access can change. -/
def changes (buf : FileAccessBuffer) (chain : List Nat) (cluster : Nat) : Prop :=
  match buf with
  | read _ => False
  | write _ => cluster ∈ chain

section
variable (buf : FileAccessBuffer)

section
variable (content : Nat → UInt8)

theorem result_zero (position : Nat) :
    buf.result content position 0 = [] := by cases buf <;> rfl

theorem apply_zero (position accessed : Nat) : buf.apply content position accessed 0 = content := by
  cases buf with
  | read length => rfl
  | write bytes => exact writeBytes_eq_self (by simp)

theorem result_add (position accessed m n : Nat) :
    buf.result content position m ++
        buf.result (buf.apply content position accessed m) (position + m) n =
      buf.result content position (m + n) := by
  cases buf with
  | read length => exact (readBytes_add content position m n).symm
  | write bytes => rfl

theorem apply_add (position : Nat) {m : Nat} (inside : accessed + m ≤ buf.len) (n : Nat) :
    buf.apply (buf.apply content position accessed m) (position + m) (accessed + m) n =
      buf.apply content position accessed (m + n) := by
  cases buf with
  | read length => rfl
  | write bytes =>
    have inside : accessed + m ≤ bytes.length := inside
    have length : ((bytes.drop accessed).take m).length = m := by
      rw [List.length_take, List.length_drop]
      omega
    have joined := writeBytes_writeBytes content position ((bytes.drop accessed).take m)
      ((bytes.drop (accessed + m)).take n)
    rw [length] at joined
    unfold apply
    dsimp only
    rw [joined, List.take_add, List.drop_drop]

end

end

end FileAccessBuffer

/-- A write to a cached cluster, whose dirty range then covers it. -/
theorem FatFilesystem.EntryOk.write (ok : EntryOk fs cluster entry) (nonempty : 0 < part.length)
    (inside : offset + part.length ≤ fs.bootSector.bytesPerCluster) :
    EntryOk fs cluster { entry with
      dirtyRange := some (extendDirtyRange entry.dirtyRange offset (offset + part.length)),
      data := splice entry.data offset part } := by
  obtain ⟨data, number, used, length, range, clean⟩ := ok
  have fits : offset + part.length ≤ entry.data.length := by rwa [length]
  refine ⟨data, number, used, (length_splice fits).trans length, ?_, ?_⟩
  · rintro _ ⟨⟩
    unfold extendDirtyRange
    cases dirty : entry.dirtyRange with
    | none => exact ⟨by dsimp only; omega, by dsimp only; omega⟩
    | some old =>
      obtain ⟨ordered, below⟩ := range old dirty
      exact ⟨by dsimp only; omega, by dsimp only; omega⟩
  · intro i below outside
    have outside := outside _ rfl
    have away : i < offset ∨ offset + part.length ≤ i := by
      unfold extendDirtyRange at outside
      split at outside <;> dsimp only at outside <;> omega
    rw [getElem?_splice fits, if_neg (by omega)]
    refine clean i below fun old dirty => ?_
    unfold extendDirtyRange at outside
    rw [dirty] at outside
    dsimp only at outside
    omega

/-- A write to a cached cluster of a file is a write to the file. -/
theorem fileByte_write (nodup : chain.Nodup) (link : chain[k]? = some cluster)
    {new : ClusterCacheEntry} (found : SortedMap.get? fs.clusterCache cluster = some entry)
    (ok : EntryOk fs cluster entry) (inside : offset + part.length ≤ fs.bootSector.bytesPerCluster)
    (data : new.data = splice entry.data offset part) :
    FatFilesystem.fileByte { fs with clusterCache := fs.clusterCache.insert cluster new } chain =
      writeBytes (fs.fileByte chain) (k * fs.bootSector.bytesPerCluster + offset) part := by
  have fits : offset + part.length ≤ entry.data.length := by rwa [ok.length]
  funext p
  obtain ⟨j, r, low, rfl⟩ : ∃ j r, r < fs.bootSector.bytesPerCluster ∧
      p = j * fs.bootSector.bytesPerCluster + r :=
    ⟨_, _, Nat.mod_lt p fs.bootSector.bytesPerCluster_pos, (Nat.div_add_mod' ..).symm⟩
  rw [show FatFilesystem.fileByte { fs with clusterCache := fs.clusterCache.insert cluster new }
    chain (j * fs.bootSector.bytesPerCluster + r) = _ from fileByte_at chain j low]
  by_cases same : j = k
  · subst j
    rw [link]
    dsimp only
    rw [clusterByte_insert, if_pos rfl, data, List.getD_eq_getElem?_getD, getElem?_splice fits]
    by_cases touched : offset ≤ r ∧ r < offset + part.length
    · obtain ⟨i, rfl⟩ := Nat.exists_eq_add_of_le touched.1
      rw [if_pos touched, Nat.add_sub_cancel_left, ← Nat.add_assoc,
        ← writeBytes_inside (fs.fileByte chain) (by omega)]
      rfl
    · rw [if_neg touched, writeBytes_outside _ (by omega), fileByte_eq link low,
        clusterByte_of_cached found ok low]
      rfl
  · have outside : j * fs.bootSector.bytesPerCluster + r <
        k * fs.bootSector.bytesPerCluster + offset ∨
        k * fs.bootSector.bytesPerCluster + offset + part.length ≤
          j * fs.bootSector.bytesPerCluster + r := by
      rcases Nat.lt_or_gt_of_ne same with before | after
      · have := Nat.mul_le_mul_right fs.bootSector.bytesPerCluster (Nat.succ_le_of_lt before)
        rw [Nat.succ_mul] at this
        omega
      · have := Nat.mul_le_mul_right fs.bootSector.bytesPerCluster (Nat.succ_le_of_lt after)
        rw [Nat.succ_mul] at this
        omega
    rw [writeBytes_outside _ outside, fileByte_at chain j low]
    cases found' : chain[j]? with
    | none => rfl
    | some d =>
      have other : d ≠ cluster := by
        rintro rfl
        obtain ⟨inside', here'⟩ := List.getElem?_eq_some_iff.mp found'
        obtain ⟨inside, here⟩ := List.getElem?_eq_some_iff.mp link
        exact same ((nodup.getElem_inj_iff).mp (here'.trans here.symm))
      dsimp only
      rw [clusterByte_insert, if_neg other]

/-- One turn reads or writes the bytes up to the end of the cluster or of the access. -/
theorem accessEntry_returns (inode : FileNode) (volume : VolumeOk files fs)
    (mine : ∀ c ∈ chain, files c) (nodup : chain.Nodup) (buf : FileAccessBuffer)
    (link : chain[k]? = some cluster)
    (cached : ∃ entry, SortedMap.get? fs.clusterCache cluster = some entry)
    (below : offset < fs.bootSector.bytesPerCluster) (more : accessed < maxToAccess)
    (inside : maxToAccess ≤ buf.len) :
    Returns (accessEntry buf maxToAccess cluster offset accessed) fs fun r t =>
      r = (min (fs.bootSector.bytesPerCluster - offset) (maxToAccess - accessed),
        buf.result (fs.fileByte chain) (k * fs.bootSector.bytesPerCluster + offset)
          (min (fs.bootSector.bytesPerCluster - offset) (maxToAccess - accessed))) ∧
      Kept files (buf.changes chain) fs inode t ∧
      t.fileByte chain = buf.apply (fs.fileByte chain)
        (k * fs.bootSector.bytesPerCluster + offset) accessed
        (min (fs.bootSector.bytesPerCluster - offset) (maxToAccess - accessed)) ∧
      (∃ entry, SortedMap.get? t.clusterCache cluster = some entry) ∧
      ∀ bytes, buf = .write bytes → Owed t inode := by
  obtain ⟨entry, found⟩ := cached
  have ok := volume.cache cluster entry found
  apply Returns.after (orPanic_ok found)
  apply Returns.after (assertThat_ok (decide_eq_true (by rw [ok.length]; omega)))
  rw [ok.length]
  generalize count : min (fs.bootSector.bytesPerCluster - offset) (maxToAccess - accessed) = n
  cases buf with
  | read length =>
    apply Returns.after (orPanic_ok (slice?_cached link found ok (by omega)))
    exact ⟨rfl, Kept.refl volume, rfl, ⟨entry, found⟩, by rintro bytes ⟨⟩⟩
  | write bytes =>
    have inside : maxToAccess ≤ bytes.length := inside
    have taken : slice? bytes accessed n = some ((bytes.drop accessed).take n) :=
      slice?_eq_some_iff.mpr ⟨by omega, rfl⟩
    have length := length_of_slice? taken
    apply Returns.after (orPanic_ok taken)
    have mem := List.mem_of_getElem? link
    have written : EntryOk fs cluster { entry with
        dirtyRange := some (extendDirtyRange entry.dirtyRange offset (offset + n)),
        data := splice entry.data offset ((bytes.drop accessed).take n) } := by
      have written := ok.write (by omega : 0 < ((bytes.drop accessed).take n).length)
        (by omega : offset + ((bytes.drop accessed).take n).length ≤ _)
      rwa [length] at written
    refine ⟨rfl, kept_insert volume (mine _ mem) written ?_ ?_,
      fileByte_write nodup link found ok (by omega) rfl, ⟨_, SortedMap.get?_insert_self ..⟩, ?_⟩
    · intro unchanged
      exact absurd mem unchanged
    · intro _ _ _ clean
      cases clean
    · intro _ _
      exact .inr ⟨cluster, _, SortedMap.get?_insert_self .., fun clean => by cases clean⟩

theorem nextCluster_ok (linked : fs.fat.Linked chain)
    (link : chain[k]? = some cluster) : nextCluster cluster fs = .ok chain[k + 1]? fs := by
  unfold nextCluster
  rw [get_bind, bind_of_ok (orPanic_ok (linked.nextCluster link))]
  rfl

end

section
variable {files changed : Nat → Prop} {chain : List Nat} {s t u : Session}
variable {cluster n : Nat}

theorem Moved.refl (volume : VolumeOk files s.fs) : Moved files changed s s :=
  ⟨rfl, Kept.refl volume⟩

theorem Moved.trans (first : Moved files changed s t) (second : Moved files changed t u) :
    Moved files changed s u := by
  refine ⟨second.inode.trans first.inode, first.kept.trans ?_⟩
  have kept := second.kept
  rwa [first.inode] at kept

theorem Moved.mono {more : Nat → Prop} (moved : Moved files changed s t)
    (grows : ∀ c, changed c → more c) : Moved files more s t :=
  ⟨moved.inode, moved.kept.mono grows⟩

theorem Moved.file (moved : Moved files changed s t) (file : FileOk files chain s.fs s.inode) :
    FileOk files chain t.fs t.inode := by
  rw [moved.inode]
  exact file.of_kept moved.kept

section
variable (changed) (volume : VolumeOk files s.fs) (file : FileOk files chain s.fs s.inode)
  (here : AtCluster chain s k cluster)
include volume file here

/-- The step to the next cluster, if the chain goes on. -/
theorem advanceCluster_returns :
    Returns (advanceCluster cluster) s fun next t => Moved files changed s t ∧
      next = chain[k + 1]? ∧
      match next with
      | none => AtCluster chain t k cluster
      | some next => AtCluster chain t (k + 1) next := by
  apply Returns.after (onFs_ok (nextCluster_ok file.linked here.link))
  cases link : chain[k + 1]? with
  | none => exact ⟨Moved.refl volume, rfl, here⟩
  | some next =>
    apply meets_get_bind.mpr
    apply meets_bind.mpr
    apply meets_onFs.mpr
    refine (releaseCluster_keeps changed volume file.node cluster).mono ?_
    rintro - fs ⟨released, -⟩
    apply meets_bind.mpr
    apply meets_onFs.mpr
    have mine := file.mine next (List.mem_of_getElem? link)
    refine (lockCluster_keeps changed s.inode released.volume mine).mono ?_
    rintro - fs' ⟨locked, cached⟩
    refine ⟨⟨rfl, released.trans locked⟩, rfl, ⟨?_, link, cached⟩⟩
    show AccessHelper.mk next (s.accessHelper.clusterIndex + 1) = _
    rw [here.helper]

theorem nextTurn_returns (inside : offset ≤ s.fs.bootSector.bytesPerCluster) :
    Returns (nextTurn cluster offset) s fun next t => Moved files changed s t ∧
      match next with
      | none => offset = s.fs.bootSector.bytesPerCluster ∧ chain[k + 1]? = none ∧
          AtCluster chain t k cluster
      | some (next, start) => start < s.fs.bootSector.bytesPerCluster ∧
          ∃ k', AtCluster chain t k' next ∧ k' * s.fs.bootSector.bytesPerCluster + start =
            k * s.fs.bootSector.bytesPerCluster + offset := by
  apply meets_get_bind.mpr
  split
  · have full : offset = s.fs.bootSector.bytesPerCluster := by omega
    apply Returns.after (onFs_ok (assertThat_ok (decide_eq_true full)))
    refine Returns.bind _ (advanceCluster_returns changed volume file here) ?_
    rintro next t ⟨moved, rfl, position⟩
    cases link : chain[k + 1]? with
    | none =>
      rw [link] at position
      exact ⟨moved, full, rfl, position⟩
    | some next =>
      rw [link] at position
      refine ⟨moved, s.fs.bootSector.bytesPerCluster_pos, k + 1, position, ?_⟩
      rw [Nat.succ_mul, full, add_zero]
  · exact ⟨Moved.refl volume, by omega, k, here, rfl⟩

end

/-! ## The loop -/

theorem accessLoop_done (buf : FileAccessBuffer) (done : maxToAccess ≤ accessed)
    (turns offset cluster : Nat) (out : List UInt8) :
    accessLoop buf maxToAccess turns accessed offset cluster out = pure (accessed, out) := by
  cases turns <;> exact if_neg (by omega)

/-- The file after `n` bytes of it are accessed, from a position in the file and one in the
buffer. -/
structure Accessed (files : Nat → Prop) (chain : List Nat) (buf : FileAccessBuffer)
    (position accessed n : Nat) (s t : Session) : Prop where
  moved : Moved files (buf.changes chain) s t
  content : t.fs.fileByte chain = buf.apply (s.fs.fileByte chain) position accessed n
  positioned : Positioned chain t
  owed : ∀ bytes, buf = .write bytes → 0 < n → Owed t.fs t.inode

theorem AtCluster.positioned (here : AtCluster chain s k cluster) : Positioned chain s := by
  refine .inr ?_
  rw [here.helper]
  exact here

theorem Accessed.refl (volume : VolumeOk files s.fs) (positioned : Positioned chain s) :
    Accessed files chain buf position accessed 0 s s :=
  ⟨Moved.refl volume, (buf.apply_zero ..).symm, positioned, fun _ _ more => by omega⟩

theorem Accessed.trans {m : Nat} (inside : accessed + m ≤ buf.len)
    (first : Accessed files chain buf position accessed m s t)
    (second : Accessed files chain buf (position + m) (accessed + m) n t u) :
    Accessed files chain buf position accessed (m + n) s u := by
  refine ⟨first.moved.trans second.moved, ?_, second.positioned, ?_⟩
  · rw [second.content, first.content, buf.apply_add _ _ inside]
  · intro bytes writes more
    rcases Nat.eq_zero_or_pos n with none | some
    · have kept := second.moved.kept
      rw [second.moved.inode]
      exact kept.owed (first.owed bytes writes (by omega))
    · exact second.owed bytes writes some

theorem Accessed.after (moved : Moved files (fun _ => False) s t)
    (mine : ∀ c ∈ chain, files c) (access : Accessed files chain buf position accessed n t u) :
    Accessed files chain buf position accessed n s u := by
  refine ⟨(moved.mono fun _ never => never.elim).trans access.moved, ?_, access.positioned,
    access.owed⟩
  rw [access.content, moved.kept.fileByte mine fun _ _ never => never]

/-- The loop accesses the bytes of the file from its position on, up to the end of the access. -/
theorem accessLoop_returns (buf : FileAccessBuffer) {turns : Nat} (fits : maxToAccess ≤ buf.len)
    {out : List UInt8} (volume : VolumeOk files s.fs) (file : FileOk files chain s.fs s.inode)
    (here : AtCluster chain s k cluster) (below : offset < s.fs.bootSector.bytesPerCluster)
    (at_ : k * s.fs.bootSector.bytesPerCluster + offset = position + accessed)
    (upto : accessed ≤ maxToAccess)
    (inside : position + maxToAccess ≤ chain.length * s.fs.bootSector.bytesPerCluster)
    (enough : maxToAccess - accessed ≤ turns) :
    Returns (accessLoop buf maxToAccess turns accessed offset cluster out) s fun r t =>
      r = (maxToAccess, out ++ buf.result (s.fs.fileByte chain) (position + accessed)
        (maxToAccess - accessed)) ∧
      Accessed files chain buf (position + accessed) accessed (maxToAccess - accessed) s t := by
  induction turns generalizing s k cluster offset accessed out with
  | zero =>
    have done : accessed = maxToAccess := by omega
    subst done
    rw [accessLoop_done buf le_rfl, Nat.sub_self, buf.result_zero, List.append_nil]
    exact ⟨rfl, Accessed.refl volume here.positioned⟩
  | succ turns ih =>
    rcases Nat.eq_or_lt_of_le upto with rfl | more
    · rw [accessLoop_done buf le_rfl, Nat.sub_self, buf.result_zero, List.append_nil]
      exact ⟨rfl, Accessed.refl volume here.positioned⟩
    unfold accessLoop
    rw [if_pos more]
    apply meets_bind.mpr
    apply meets_onFs.mpr
    refine (accessEntry_returns s.inode volume file.mine file.linked.nodup buf here.link
      here.cached below more fits).mono ?_
    generalize count : min (s.fs.bootSector.bytesPerCluster - offset) (maxToAccess - accessed) = n
    rintro _ fs ⟨rfl, kept, content, cached, owed⟩
    have boot := kept.bootSector
    apply meets_bind.mpr
    have here' : AtCluster chain { s with fs := fs } k cluster := ⟨here.helper, here.link, cached⟩
    have inside' : offset + n ≤ fs.bootSector.bytesPerCluster := by
      rw [boot]
      omega
    refine (nextTurn_returns (s := { s with fs := fs }) (fun _ => False) kept.volume
      (file.of_kept kept) here' inside').mono ?_
    rintro next t ⟨moved, position'⟩
    have counted : accessed + n ≤ maxToAccess := by omega
    -- the turn as a whole: no cluster changes while the file goes to the next one
    have turn : ∀ {k' next}, AtCluster chain t k' next →
        Accessed files chain buf (position + accessed) accessed n s t := by
      intro k' next there
      have stays : Moved files (buf.changes chain) s { s with fs := fs } := ⟨rfl, kept⟩
      refine ⟨stays.trans (moved.mono fun _ never => never.elim), ?_, there.positioned, ?_⟩
      · rw [moved.kept.fileByte file.mine fun _ _ never => never, content, at_]
      · intro bytes writes _
        rw [moved.inode]
        exact moved.kept.owed (owed bytes writes)
    rw [at_]
    cases next with
    | none =>
      obtain ⟨full, last, there⟩ := position'
      have whole : n = maxToAccess - accessed := by
        have short := List.getElem?_eq_none_iff.mp last
        have longest := Nat.mul_le_mul_right s.fs.bootSector.bytesPerCluster short
        rw [Nat.succ_mul] at longest
        omega
      subst whole
      refine ⟨?_, turn there⟩
      rw [Nat.add_sub_cancel' upto]
    | some pair =>
      obtain ⟨below', k', there, at'⟩ := position'
      have boot' : t.fs.bootSector = s.fs.bootSector := moved.kept.bootSector.trans boot
      rw [boot] at below' at'
      refine (ih moved.kept.volume (moved.file (file.of_kept kept)) there (by rwa [boot'])
        (by rw [boot']; omega : _ = position + (accessed + n)) counted (by rwa [boot'])
        (by omega)).mono ?_
      rintro _ u ⟨rfl, rest⟩
      have turn := turn there
      have joined : n + (maxToAccess - (accessed + n)) = maxToAccess - accessed := by omega
      have split := turn.trans (by omega) (by rwa [← Nat.add_assoc] at rest)
      rw [joined] at split
      refine ⟨?_, split⟩
      rw [turn.content, List.append_assoc, ← Nat.add_assoc, buf.result_add, joined]

/-! ## `read_write_file` -/

theorem walkChain_ok {fs : FatFilesystem} (linked : fs.fat.Linked chain) {links first last : Nat}
    (from_ : chain[k]? = some first) (upto : chain[k + links]? = some last) :
    walkChain first links fs = .ok last fs := by
  induction links generalizing k first with
  | zero =>
    cases from_.symm.trans upto
    rfl
  | succ links ih =>
    have longer := (List.getElem?_eq_some_iff.mp upto).1
    have goes : chain[k + 1]? = some chain[k + 1] := List.getElem?_eq_getElem (by omega)
    unfold walkChain
    rw [bind_of_ok (nextCluster_ok linked from_), goes]
    exact ih goes (by rwa [add_assoc, add_comm 1])

section
variable (changed) (volume : VolumeOk files s.fs) (file : FileOk files chain s.fs s.inode)
include volume file

theorem leaveCluster_returns (positioned : Positioned chain s) (clusterIndex : Nat) :
    Returns (leaveCluster clusterIndex) s fun _ t => Moved files changed s t ∧
      (t.accessHelper.currentCluster = 0 ∨
        AtCluster chain t clusterIndex t.accessHelper.currentCluster) := by
  apply meets_get_bind.mpr
  by_cases seek : s.accessHelper.clusterIndex ≠ clusterIndex
  · rw [if_pos seek]
    by_cases present : s.accessHelper.currentCluster ≠ 0
    · rw [if_pos present]
      apply meets_bind.mpr
      apply meets_onFs.mpr
      refine (releaseCluster_keeps changed volume file.node _).mono ?_
      rintro - fs ⟨kept, -⟩
      exact ⟨⟨rfl, kept⟩, .inl rfl⟩
    · rw [if_neg present]
      exact ⟨⟨rfl, Kept.refl volume⟩, .inl rfl⟩
  · rw [if_neg seek]
    have same : s.accessHelper.clusterIndex = clusterIndex := not_not.mp seek
    refine ⟨Moved.refl volume, ?_⟩
    rcases positioned with nowhere | here
    · exact .inl nowhere
    · rw [same] at here
      exact .inr here

theorem enterCluster_returns {clusterIndex : Nat} (inside : clusterIndex < chain.length)
    (positioned : s.accessHelper.currentCluster = 0 ∨
      AtCluster chain s clusterIndex s.accessHelper.currentCluster) :
    Returns (enterCluster clusterIndex) s fun cluster t => Moved files changed s t ∧
      AtCluster chain t clusterIndex cluster := by
  apply meets_get_bind.mpr
  split
  · have start : chain[0]? = some (wrap32 s.inode.startCluster) := by
      have head := List.getElem?_eq_getElem (Nat.zero_lt_of_lt inside)
      rw [head, ← file.start _ (List.head?_eq_getElem?.trans head)]
    have first := (volume.data _ (file.mine _ (List.mem_of_getElem? start))).two_le
    have link : chain[clusterIndex]? = some chain[clusterIndex] := List.getElem?_eq_getElem inside
    apply Returns.after (onFs_ok (assertThat_ok (decide_eq_true (by omega))))
    apply Returns.after (onFs_ok (walkChain_ok file.linked start (by rwa [zero_add])))
    apply meets_modify_bind.mpr
    apply meets_bind.mpr
    apply meets_onFs.mpr
    refine (lockCluster_keeps changed s.inode volume
      (file.mine _ (List.mem_of_getElem? link))).mono ?_
    rintro - fs ⟨kept, cached⟩
    exact ⟨⟨rfl, kept⟩, rfl, link, cached⟩
  · rename_i present
    rcases positioned with nowhere | here
    · exact absurd nowhere present
    · obtain ⟨entry, found⟩ := here.cached
      rw [found]
      exact ⟨Moved.refl volume, here⟩

end

section
variable (volume : VolumeOk files s.fs) (file : FileOk files chain s.fs s.inode)
  (positioned : Positioned chain s)
include volume file positioned

section
variable (covered : wrap32 s.inode.size ≤ chain.length * s.fs.bootSector.bytesPerCluster)
include covered

/-- `read_write_file` reads or replaces the bytes of the file up to its end. -/
theorem readWriteFile_returns (position : Nat) (buf : FileAccessBuffer) :
    Returns (readWriteFile position buf) s fun r t =>
      r = (min (wrap32 buf.len) (wrap32 s.inode.size - position),
        buf.result (s.fs.fileByte chain) position
          (min (wrap32 buf.len) (wrap32 s.inode.size - position))) ∧
      Accessed files chain buf position 0
        (min (wrap32 buf.len) (wrap32 s.inode.size - position)) s t := by
  apply meets_get_bind.mpr
  dsimp only
  split
  · rw [show min (wrap32 buf.len) (wrap32 s.inode.size - position) = 0 by omega, buf.result_zero]
    exact ⟨rfl, Accessed.refl volume positioned⟩
  · have pos := s.fs.bootSector.bytesPerCluster_pos
    have fits : min (wrap32 buf.len) (wrap32 s.inode.size - position) ≤ buf.len :=
      (Nat.min_le_left ..).trans (Nat.mod_le ..)
    have index : position / s.fs.bootSector.bytesPerCluster < chain.length :=
      (Nat.div_lt_iff_lt_mul pos).mpr (by omega)
    refine Returns.bind _ (leaveCluster_returns (fun _ => False) volume file positioned _) ?_
    rintro - t ⟨left, positioned⟩
    refine Returns.bind _ (enterCluster_returns (fun _ => False) left.kept.volume (left.file file)
      index positioned) ?_
    rintro cluster u ⟨entered, here⟩
    have moved := left.trans entered
    have boot := moved.kept.bootSector
    have content := moved.kept.fileByte file.mine fun _ _ never => never
    have start : position / s.fs.bootSector.bytesPerCluster * u.fs.bootSector.bytesPerCluster +
        position % s.fs.bootSector.bytesPerCluster = position + 0 := by
      rw [boot, Nat.div_add_mod', Nat.add_zero]
    refine (accessLoop_returns buf fits moved.kept.volume (moved.file file) here
      (by rw [boot]; exact Nat.mod_lt _ pos) start (Nat.zero_le _) (by rw [boot]; omega)
      le_rfl).mono ?_
    rintro _ v ⟨rfl, accessed⟩
    rw [Nat.sub_zero] at accessed ⊢
    rw [content]
    exact ⟨rfl, accessed.after moved file.mine⟩

theorem readFile_returns (small : position < 2 ^ 32) (length : Nat) :
    Returns (readFile position length) s fun r t =>
      r = (min (wrap32 length) (wrap32 s.inode.size - position),
        readBytes (s.fs.fileByte chain) position
          (min (wrap32 length) (wrap32 s.inode.size - position))) ∧
      Accessed files chain (.read length) position 0
        (min (wrap32 length) (wrap32 s.inode.size - position)) s t := by
  apply Returns.after (onFs_ok (assertThat_ok (decide_eq_true small)))
  exact readWriteFile_returns volume file positioned covered position (.read length)

end

/-- A write inside the file. -/
theorem writeFile_returns (covered : s.inode.size ≤ chain.length * s.fs.bootSector.bytesPerCluster)
    (small : s.inode.size < 2 ^ 32) {buf : List UInt8}
    (inside : position + buf.length ≤ s.inode.size) :
    Returns (writeFile position buf) s fun r t => r = buf.length ∧
      Accessed files chain (.write buf) position 0 buf.length s t := by
  have size : wrap32 s.inode.size = s.inode.size := Nat.mod_eq_of_lt small
  have length : wrap32 buf.length = buf.length := Nat.mod_eq_of_lt (by omega)
  have whole : min (wrap32 (FileAccessBuffer.write buf).len) (wrap32 s.inode.size - position) =
      buf.length := by
    show min (wrap32 buf.length) _ = _
    omega
  apply Returns.after (onFs_ok (assertThat_ok (decide_eq_true (by omega))))
  apply meets_get_bind.mpr
  dsimp only
  rw [if_neg (by omega), show position - s.inode.size = 0 by omega]
  apply Returns.bind (fun _ t => s = t)
  · exact rfl
  · rintro - _ rfl
    refine Returns.bind _ (readWriteFile_returns volume file positioned (by rwa [size]) position
      (.write buf)) ?_
    rw [whole]
    rintro _ t ⟨rfl, accessed⟩
    exact ⟨rfl, accessed⟩

end

theorem closeFile_returns (changed : Nat → Prop) (volume : VolumeOk files s.fs)
    (file : FileOk files chain s.fs s.inode) :
    Returns closeFile s fun _ t => Moved files changed s t ∧
      t.fs.clusterCache =
        (s.fs.clusterCache.releaseCluster s.accessHelper.currentCluster).2 := by
  apply meets_get_bind.mpr
  apply meets_onFs.mpr
  refine (releaseCluster_keeps changed volume file.node _).mono ?_
  rintro - fs ⟨kept, cache⟩
  exact ⟨⟨rfl, kept⟩, cache⟩

end

end Emerald.Fs
