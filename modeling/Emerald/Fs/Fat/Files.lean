
import Emerald.Fs.Fat.Filesystem

/-!
# Reading and writing the files of a FAT filesystem

The file operations of `FatFilesystem` in `kernel/src/fs/fat.rs`. An open file has a copy of the
node of its own and an `AccessHelper` that remembers the cluster it was last at, which it keeps
locked in the cluster cache. The loops are given the number of turns they can take.
-/

namespace Emerald.Fs

/-- An operation of one open file: it changes the filesystem, the node of the file and the access
helper, also when it stops with an error. -/
structure Session where
  fs : FatFilesystem
  inode : FileNode
  accessHelper : AccessHelper

/-- An operation of one open file. -/
abbrev FileM := EStateM Failure Session

/-- An operation of the filesystem, on behalf of a file. -/
def onFs {α : Type} (p : FatM α) : FileM α := fun s =>
  match p s.fs with
  | .ok a fs => .ok a { s with fs := fs }
  | .error e fs => .error e { s with fs := fs }

/-- `FileAccessBuffer`: the length of the buffer to fill, or the bytes to write. -/
inductive FileAccessBuffer
  | read (length : Nat)
  | write (bytes : List UInt8)

def FileAccessBuffer.len : FileAccessBuffer → Nat
  | read length => length
  | write bytes => bytes.length

/-- The dirty range of a cluster after a write to `start..stop`. -/
def extendDirtyRange (dirtyRange : Option (Nat × Nat)) (start stop : Nat) : Nat × Nat :=
  match dirtyRange with
  | some range => (min range.1 start, max range.2 stop)
  | none => (start, stop)

/-- The entry of a cluster that the caller holds. -/
def clusterEntry (cluster : Nat) : FatM ClusterCacheEntry := do
  orPanic ((← get).clusterCache.get? cluster)

/-- One turn of the loop of `read_write_file` on the entry it holds: the number of bytes that are
accessed and those that are read. -/
def accessEntry (buf : FileAccessBuffer) (maxToAccess cluster positionInCluster accessed : Nat) :
    FatM (Nat × List UInt8) := do
  let entry ← clusterEntry cluster
  assertThat (positionInCluster ≤ entry.data.length)
  let toAccess := min (entry.data.length - positionInCluster) (maxToAccess - accessed)
  match buf with
  | .read _ =>
    let part ← orPanic (slice? entry.data positionInCluster toAccess)
    pure (toAccess, part)
  | .write bytes =>
    let part ← orPanic (slice? bytes accessed toAccess)
    let range := extendDirtyRange entry.dirtyRange positionInCluster (positionInCluster + toAccess)
    let data := splice entry.data positionInCluster part
    modify fun fs => { fs with
      clusterCache := fs.clusterCache.insert cluster
        { entry with dirtyRange := some range, data := data } }
    pure (toAccess, [])

/-- The step of the loop from a full cluster to the next one, if there is one. -/
def advanceCluster (cluster : Nat) : FileM (Option Nat) := do
  match ← onFs (nextCluster cluster) with
  | none => pure none
  | some next =>
    onFs (releaseCluster (← get).inode cluster)
    onFs (lockCluster next)
    modify fun s => { s with accessHelper := ⟨next, s.accessHelper.clusterIndex + 1⟩ }
    pure (some next)

/-- The cluster and the position in it for the next turn of the loop; `none` ends it. -/
def nextTurn (cluster positionInCluster : Nat) : FileM (Option (Nat × Nat)) := do
  let s ← get
  if s.fs.bootSector.bytesPerCluster ≤ positionInCluster then
    onFs (assertThat (positionInCluster = s.fs.bootSector.bytesPerCluster))
    let next ← advanceCluster cluster
    pure (next.map fun cluster => (cluster, 0))
  else pure (some (cluster, positionInCluster))

/-- The loop of `read_write_file`: the number of bytes accessed and the bytes read. -/
def accessLoop (buf : FileAccessBuffer) (maxToAccess : Nat) :
    Nat → Nat → Nat → Nat → List UInt8 → FileM (Nat × List UInt8)
  | 0, accessed, _, _, out =>
    if accessed < maxToAccess then throw (.panic .assertion) else pure (accessed, out)
  | turns + 1, accessed, positionInCluster, cluster, out =>
    if accessed < maxToAccess then do
      let (toAccess, part) ← onFs (accessEntry buf maxToAccess cluster positionInCluster accessed)
      match ← nextTurn cluster (positionInCluster + toAccess) with
      | some (cluster, positionInCluster) =>
        accessLoop buf maxToAccess turns (accessed + toAccess) positionInCluster cluster
          (out ++ part)
      | none => pure (accessed + toAccess, out ++ part)
    else pure (accessed, out)

/-- The cluster a number of links along the chain from the given one. -/
def walkChain (cluster : Nat) : Nat → FatM Nat
  | 0 => pure cluster
  | links + 1 => do
    match ← nextCluster cluster with
    | some next => walkChain next links
    | none => throw (.err (.fatError .unexpectedFatEntry))

/-- "seek happened or switch exactly to next cluster after last call". -/
def leaveCluster (clusterIndex : Nat) : FileM Unit := do
  let s ← get
  if s.accessHelper.clusterIndex ≠ clusterIndex then
    if s.accessHelper.currentCluster ≠ 0 then
      onFs (releaseCluster s.inode s.accessHelper.currentCluster)
    modify fun s => { s with accessHelper := { s.accessHelper with currentCluster := 0 } }

/-- The cluster that the access starts in, locked: "starting out", or the one of the last call. -/
def enterCluster (clusterIndex : Nat) : FileM Nat := do
  let s ← get
  if s.accessHelper.currentCluster = 0 then
    let start := wrap32 s.inode.startCluster
    onFs (assertThat (start ≠ 0))
    let cluster ← onFs (walkChain start clusterIndex)
    modify fun s => { s with accessHelper := ⟨cluster, clusterIndex⟩ }
    onFs (lockCluster cluster)
    pure cluster
  else
    match s.fs.clusterCache.get? s.accessHelper.currentCluster with
    | some _ => pure s.accessHelper.currentCluster
    | none => throw (.panic .shouldBeCached)

/-- `read_write_file`: the number of bytes accessed and the bytes read. -/
def readWriteFile (position : Nat) (buf : FileAccessBuffer) : FileM (Nat × List UInt8) := do
  let s ← get
  let size := wrap32 s.inode.size
  if size ≤ position then pure (0, [])
  else
    let maxToAccess := min (wrap32 buf.len) (size - position)
    let bytesPerCluster := s.fs.bootSector.bytesPerCluster
    leaveCluster (position / bytesPerCluster)
    let cluster ← enterCluster (position / bytesPerCluster)
    accessLoop buf maxToAccess maxToAccess 0 (position % bytesPerCluster) cluster []

/-! ## The size of a file -/

/-- The clusters that a size takes: "at least 1 cluster at any point". The sum is one of `u64`. -/
def sizeInClusters (boot : FatBootSector) (size : Nat) : Nat :=
  max ((size + boot.bytesPerCluster - 1) % 2 ^ 64 / boot.bytesPerCluster) 1

/-- The clusters that follow the given one, of which there must be enough. -/
def followChain (cluster : Nat) : Nat → FatM (List Nat)
  | 0 => pure []
  | links + 1 => do
    let next ← orPanic (← nextCluster cluster)
    let rest ← followChain next links
    pure (next :: rest)

/-- "move backwards": the clusters are freed one by one. -/
def freeClusters : List Nat → FatM Unit
  | [] => pure ()
  | cluster :: rest => do
    writeFatEntry cluster .free
    freeClusters rest

/-- "adding new clusters" after the last one. -/
def addClusters (lastCluster : Nat) : Nat → FatM Unit
  | 0 => pure ()
  | toAdd + 1 => do
    match (← get).fat.findFreeCluster with
    | none => throw (.err (.fatError .notEnoughSpace))
    | some newCluster =>
      writeFatEntry lastCluster (.next newCluster)
      writeFatEntry newCluster .endOfChain
      addClusters newCluster toAdd

/-- The part of `set_file_size` that changes the table. -/
def resizeChain (startCluster currentSizeInClusters newSizeInClusters : Nat) : FatM Unit := do
  let toKeep := min newSizeInClusters currentSizeInClusters
  let kept ← followChain startCluster (toKeep - 1)
  let lastCluster := kept.getLastD startCluster
  if newSizeInClusters < currentSizeInClusters then
    let clusters ← followChain lastCluster (currentSizeInClusters - newSizeInClusters)
    freeClusters clusters.reverse
    writeFatEntry lastCluster .endOfChain
  else addClusters lastCluster (newSizeInClusters - currentSizeInClusters)

/-- `FatFilesystem::set_file_size`. -/
def setFileSize (size : Nat) : FileM Unit := do
  let s ← get
  let currentSizeInClusters := sizeInClusters s.fs.bootSector s.inode.size
  let newSizeInClusters := sizeInClusters s.fs.bootSector size
  if newSizeInClusters ≠ currentSizeInClusters then
    onFs (resizeChain (wrap32 s.inode.startCluster) currentSizeInClusters newSizeInClusters)
  modify fun s => { s with inode := { s.inode with size := size } }

/-! ## The operations of the `FileSystem` trait -/

/-- An error of the first part of an operation, as the operation reports it. -/
def mapErr {α : Type} (report : FileSystemError) (p : FileM α) : FileM α := fun s =>
  match p s with
  | .ok a t => .ok a t
  | .error (.err _) t => .error (.err report) t
  | .error (.panic why) t => .error (.panic why) t

/-- `read_file`. -/
def readFile (position length : Nat) : FileM (Nat × List UInt8) := do
  onFs (assertThat (position < 2 ^ 32))
  readWriteFile position (.read length)

/-- "extend to the position with zeros", one sector at a time. -/
def writeZeros (currentSize extendSize : Nat) : Nat → Nat → FileM Unit
  | 0, written => if written < extendSize then throw (.panic .assertion) else pure ()
  | turns + 1, written =>
    if written < extendSize then do
      let toWrite := min (← get).fs.bootSector.bytesPerSector (extendSize - written)
      let _ ← readWriteFile (wrap32 (currentSize + written)) (.write (List.replicate toWrite 0))
      writeZeros currentSize extendSize turns (written + toWrite)
    else pure ()

/-- `write_file`. -/
def writeFile (position : Nat) (buf : List UInt8) : FileM Nat := do
  onFs (assertThat (position < 2 ^ 32))
  let currentSize := (← get).inode.size
  if currentSize < position + buf.length then
    mapErr .couldNotSetFileLength (setFileSize (position + buf.length))
  writeZeros currentSize (position - currentSize) (position - currentSize) 0
  let (written, _) ← readWriteFile position (.write buf)
  pure written

/-- `flush_file`. -/
def flushFile : FileM Unit := do
  let s ← get
  onFs (flushCluster s.inode s.accessHelper.currentCluster)

/-- `close_file`, which ends the session. -/
def closeFile : FileM Unit := do
  let s ← get
  onFs (releaseCluster s.inode s.accessHelper.currentCluster)

/-! ## Open files -/

/-- What a `File` keeps of its place on the disk. -/
structure OpenFile where
  inode : FileNode
  accessHelper : AccessHelper

/-- A filesystem with its open files. -/
structure FatWorld where
  fs : FatFilesystem
  files : SortedMap OpenFile

/-- The calls through open files, each with the access that the device fails in it. -/
inductive FileCall
  | openFile (id : Nat) (inode : FileNode)
  | readFile (id position length : Nat) (faultIn : FaultIn)
  | writeFile (id position : Nat) (buf : List UInt8) (faultIn : FaultIn)
  | closeFile (id : Nat) (faultIn : FaultIn)

namespace FatWorld

/-- The start of an operation of an open file. -/
def session (w : FatWorld) (file : OpenFile) (faultIn : FaultIn) : Session :=
  ⟨{ w.fs with disk := { w.fs.disk with faultIn := faultIn } }, file.inode, file.accessHelper⟩

/-- An operation of an open file, in which the access that the device is to fail, if any, is
reached. A panic has no state after it. -/
def operate {α : Type} (w : FatWorld) (id : Nat) (faultIn : FaultIn) (p : FileM α) :
    Option Session := do
  let file ← w.files.get? id
  let t ← stateAfter (p (w.session file faultIn))
  if t.fs.disk.faultIn = none then some t else none

/-- The filesystem and its open files after a call. -/
def step (w : FatWorld) : FileCall → Option FatWorld
  | .openFile id inode =>
    match w.files.get? id with
    | none => some { w with files := w.files.insert id ⟨inode, AccessHelper.new⟩ }
    | some _ => none
  | .readFile id position length faultIn =>
    (w.operate id faultIn (Fs.readFile position length)).map fun t =>
      ⟨t.fs, w.files.insert id ⟨t.inode, t.accessHelper⟩⟩
  | .writeFile id position buf faultIn =>
    (w.operate id faultIn (Fs.writeFile position buf)).map fun t =>
      ⟨t.fs, w.files.insert id ⟨t.inode, t.accessHelper⟩⟩
  | .closeFile id faultIn =>
    (w.operate id faultIn Fs.closeFile).map fun t => ⟨t.fs, w.files.erase id⟩

end FatWorld

end Emerald.Fs
