
import Emerald.Fs.Fat.Filesystem

/-!
# Directories of a FAT filesystem

`DirectoryIterator` of `kernel/src/fs/fat.rs`, which goes through the sectors of a directory and
puts its 32-byte entries together to nodes, and the `read_dir` and `treverse_dir` of the
filesystem. The times of an entry are left out, no function here reads them.
-/

namespace Emerald.Fs

/-! ## Entries -/

/-- `DirectoryEntryNormal`. -/
structure DirectoryEntryNormal where
  shortName : List UInt8
  attributes : UInt8
  firstClusterHi : Nat
  firstClusterLo : Nat
  fileSize : Nat
  deriving DecidableEq

/-- `byte as char`. -/
def asChar (byte : UInt8) : Char := Char.ofNat byte.toNat

namespace DirectoryEntryNormal

/-- The entry with the given bytes. -/
def fromRaw (raw : List UInt8) : DirectoryEntryNormal where
  shortName := raw.take 11
  attributes := raw.getD 11 0
  firstClusterHi := fromLE ((raw.drop 20).take 2)
  firstClusterLo := fromLE ((raw.drop 26).take 2)
  fileSize := fromLE ((raw.drop 28).take 4)

/-- `DirectoryEntryNormal::name`: the name without the spaces after it, unless there are only
spaces, for which it panics. -/
def name (entry : DirectoryEntryNormal) : Option (List Char) := do
  let baseName := entry.shortName.take 8
  let baseNameEnd := 8 - (← baseName.reverse.findIdx? (· != 0x20))
  let extension := entry.shortName.drop 8
  let base := (baseName.take baseNameEnd).map asChar
  if extension.getD 0 0 ≠ 0x20 then
    some (base ++ '.' :: (extension.takeWhile (· != 0x20)).map asChar)
  else some base

/-- `DirectoryEntryNormal::first_cluster`. -/
def firstCluster (entry : DirectoryEntryNormal) : Nat :=
  (entry.firstClusterHi <<< 16) ||| entry.firstClusterLo

end DirectoryEntryNormal

/-- `char::decode_utf16`, with `REPLACEMENT_CHARACTER` for a surrogate that is not paired. -/
def decodeUtf16 : List Nat → List Char
  | [] => []
  | unit :: units =>
    if unit < 0xD800 ∨ 0xDFFF < unit then Char.ofNat unit :: decodeUtf16 units
    else if 0xDC00 ≤ unit then Char.ofNat 0xFFFD :: decodeUtf16 units
    else
      match units with
      | [] => [Char.ofNat 0xFFFD]
      | low :: after =>
        if 0xDC00 ≤ low ∧ low ≤ 0xDFFF then
          Char.ofNat (0x10000 + ((unit - 0xD800) <<< 10 ||| (low - 0xDC00))) :: decodeUtf16 after
        else Char.ofNat 0xFFFD :: decodeUtf16 (low :: after)

/-- The `u16` values in the bytes. -/
def units : List UInt8 → List Nat
  | byte1 :: byte2 :: rest => fromLE [byte1, byte2] :: units rest
  | _ => []

/-- `DirectoryEntryLong`: its number in the sequence and the three parts of the name. -/
structure DirectoryEntryLong where
  sequenceNumber : UInt8
  name1 : List Nat
  name2 : List Nat
  name3 : List Nat

/-- The entry with the given bytes. -/
def DirectoryEntryLong.fromRaw (raw : List UInt8) : DirectoryEntryLong where
  sequenceNumber := raw.getD 0 0
  name1 := units ((raw.drop 1).take 10)
  name2 := units ((raw.drop 14).take 12)
  name3 := units ((raw.drop 28).take 4)

/-- `DirectoryEntryLong::name`. -/
def DirectoryEntryLong.name (entry : DirectoryEntryLong) : List Char :=
  decodeUtf16 ((entry.name1 ++ entry.name2 ++ entry.name3).takeWhile (· != 0))

/-- `DirectoryEntry::as_normal`. -/
def asNormal (raw : List UInt8) : Option DirectoryEntryNormal :=
  if isLong raw then none else some (.fromRaw raw)

/-- `DirectoryEntry::as_long`. -/
def asLong (raw : List UInt8) : Option DirectoryEntryLong :=
  if isLong raw then some (.fromRaw raw) else none

/-- `long_entries_name_merge`. -/
def longEntriesNameMerge (entries : List (List Char)) : List Char := entries.reverse.flatten

/-! ## Nodes -/

/-- `FileAttributes::DIRECTORY`, the same bit as `attrs::DIRECTORY`. -/
def directoryAttribute : UInt8 := 0x10

/-- `file_attribute_from_fat`: each of the six attributes stands for the same bit. -/
def fileAttributeFromFat (attributes : UInt8) : UInt8 :=
  [0x01, 0x02, 0x04, 0x08, directoryAttribute, 0x20].foldl
    (fun fileAttributes bit =>
      if attributes &&& bit = bit then fileAttributes ||| bit else fileAttributes) 0

/-- `Node::new`. -/
def Node.new (name : List Char) (attributes : UInt8)
    (startCluster size parentDirSector parentDirIndex : Nat) : Node :=
  let base : BaseNode := ⟨name, attributes.toNat, startCluster, parentDirSector, parentDirIndex⟩
  if attributes &&& directoryAttribute ≠ 0 then .directory { base with }
  else .file { base with size }

/-- `FatNode`. -/
structure FatNode where
  normalEntry : DirectoryEntryNormal
  longName : Option (List Char)
  parentDirSector : Nat
  parentDirIndex : Nat

/-- `eq_ignore_ascii_case`. -/
def eqIgnoreAsciiCase (s t : List Char) : Bool := s.map Char.toLower == t.map Char.toLower

/-- `FatNode::matches`, which looks at the short name only if the long one does not match. -/
def FatNode.matchesName (node : FatNode) (matcher : List Char) : Option Bool :=
  if node.longName.any (eqIgnoreAsciiCase · matcher) then some true
  else do
    let shortName ← node.normalEntry.name
    some (eqIgnoreAsciiCase shortName matcher)

/-- `From<FatNode> for Node`. The short name is computed also if there is a long one. -/
def FatNode.toNode (node : FatNode) : Option Node := do
  let shortName ← node.normalEntry.name
  some (Node.new (node.longName.getD shortName) (fileAttributeFromFat node.normalEntry.attributes)
    node.normalEntry.firstCluster node.normalEntry.fileSize node.parentDirSector
    node.parentDirIndex)

/-! ## The iterator -/

/-- `Directory`. -/
inductive Directory
  | rootFat12_16 (startSector sizeInSectors : Nat)
  | normal (inode : DirectoryNode)

/-- `DirectoryIterator`, without the filesystem it refers to. -/
structure DirectoryIterator where
  dir : Directory
  currentSector : List UInt8
  currentSectorIndex : Nat
  currentCluster : Nat
  currentSectorDirty : Bool
  entryIndexInSector : Nat

/-- The filesystem and the iterator over one of its directories. -/
structure DirSession where
  fs : FatFilesystem
  iter : DirectoryIterator

/-- The ways the reading of a directory stops: a failure, or there are no more turns for a loop that
has not come to its end. -/
inductive DirFailure
  | failure (failure : Failure)
  | unfinished
  deriving DecidableEq

/-- An operation of the iterator. -/
abbrev DirM := EStateM DirFailure DirSession

/-- An operation of the filesystem while a directory is read. -/
def onVolume {α : Type} (p : FatM α) : DirM α := fun s =>
  match p s.fs with
  | .ok a fs => .ok a { s with fs }
  | .error failure fs => .error (.failure failure) { s with fs }

/-- `Result::ok`. -/
def okOnly {α : Type} (p : DirM α) : DirM (Option α) := fun s =>
  match p s with
  | .ok a t => .ok (some a) t
  | .error (.failure (.err _)) t => .ok none t
  | .error stop t => .error stop t

/-- `open_root_dir`. -/
def openRootDir (boot : FatBootSector) : Directory :=
  match boot.ty with
  | .fat12 | .fat16 => .rootFat12_16 boot.rootDirStartSector boot.rootDirSectors
  | .fat32 =>
    .normal ⟨⟨['/'], (fileAttributeFromFat directoryAttribute).toNat, boot.rootCluster,
      noParentDirSector, 0⟩⟩

namespace DirectoryIterator

/-- The iterator at the start of a directory, whose first sector is read. -/
def start (dir : Directory) (sectorIndex cluster : Nat) : FatM DirectoryIterator := do
  let currentSector ← readSectorsNoCache sectorIndex 1
  pure ⟨dir, currentSector, sectorIndex, cluster, false, 0⟩

/-- `DirectoryIterator::new`. In FAT12 and FAT16 the cluster 0 is that of the root: "looks like we
got back using `..`". -/
def new (dir : Directory) : FatM DirectoryIterator := do
  let boot := (← get).bootSector
  match dir with
  | .rootFat12_16 startSector _ => start dir startSector 0
  | .normal inode =>
    if boot.ty ≠ .fat32 ∧ inode.startCluster = 0 then
      start (openRootDir boot) boot.rootDirStartSector 0
    else
      let cluster := wrap32 inode.startCluster
      start dir (boot.firstSectorOfCluster cluster) cluster

end DirectoryIterator

/-- `open_dir_inode`. -/
def openDirInode (inode : DirectoryNode) : FatM DirectoryIterator := do
  let boot := (← get).bootSector
  if boot.ty ≠ .fat32 ∧ inode.startCluster = 0 then DirectoryIterator.new (openRootDir boot)
  else DirectoryIterator.new (.normal inode)

/-- `flush_current_sector`, a write that has to succeed. -/
def flushCurrentSector : DirM Unit := do
  let iter := (← get).iter
  if iter.currentSectorDirty then
    match ← okOnly (onVolume (writeSectors iter.currentSectorIndex iter.currentSector)) with
    | some _ => modify fun s => { s with iter := { s.iter with currentSectorDirty := false } }
    | none => throw (.failure (.panic .assertion))

/-- The end of `next_sector`: the sector with the given index becomes the current one. -/
def enterSector (sectorIndex : Nat) : DirM Unit := do
  let currentSector ← onVolume (readSectorsNoCache sectorIndex 1)
  modify fun s => { s with
    iter := { s.iter with
      currentSector, currentSectorIndex := sectorIndex, entryIndexInSector := 0 } }

/-- `next_sector`: whether there was one. The number of a sector is a multiple of
`sectors_per_cluster` where the code takes a cluster to start. -/
def nextSector : DirM Bool := do
  flushCurrentSector
  let s ← get
  let sectorsPerCluster := s.fs.bootSector.sectorsPerCluster
  let nextSectorIndex := wrap32 (s.iter.currentSectorIndex + 1)
  match s.iter.dir with
  | .rootFat12_16 startSector sizeInSectors =>
    if wrap32 (startSector + sizeInSectors) ≤ nextSectorIndex then pure false
    else do
      enterSector nextSectorIndex
      pure true
  | .normal _ =>
    if nextSectorIndex % sectorsPerCluster = 0 then
      match ← onVolume (orPanic (s.fs.fat.nextCluster s.iter.currentCluster)) with
      | .ok (some cluster) =>
        modify fun s => { s with iter := { s.iter with currentCluster := cluster } }
        enterSector (wrap32 (cluster * sectorsPerCluster))
        pure true
      | .ok none => pure false
      | .error _ => throw (.failure (.err .fileNotFound))
    else do
      enterSector nextSectorIndex
      pure true

/-- `get_next_entry`, with the number of sectors it may look at. -/
def getNextEntry : Nat → DirM (List UInt8)
  | 0 => throw .unfinished
  | turns + 1 => do
    let iter := (← get).iter
    let entryStart := iter.entryIndexInSector * directoryEntrySize
    if iter.currentSector.length < entryStart + directoryEntrySize then
      if ← nextSector then getNextEntry turns else throw (.failure (.err .fileNotFound))
    else
      let entry ← onVolume (orPanic (slice? iter.currentSector entryStart directoryEntrySize))
      modify fun s => { s with
        iter := { s.iter with entryIndexInSector := s.iter.entryIndexInSector + 1 } }
      pure entry

/-! ## `next`

Every loop has a number of turns, `bound` for each of them. -/

/-- The first loop of `next`: the next entry that is used. -/
def nextUsed (bound : Nat) : Nat → DirM (Option (List UInt8))
  | 0 => throw .unfinished
  | turns + 1 => do
    match ← okOnly (getNextEntry bound) with
    | none => pure none
    | some entry =>
      match entryState entry with
      | .freeAndLast => pure none
      | .free => nextUsed bound turns
      | .used => pure (some entry)

/-- The loop over the long entries: the parts of the name and the entry that comes after them. -/
def longNameEntries (bound : Nat) : Nat → DirectoryEntryLong → List (List Char) → List UInt8 →
    DirM (Option (List (List Char) × List UInt8))
  | 0, _, parts, entry => pure (some (parts, entry))
  | left + 1, longEntry, parts, _ => do
    match ← okOnly (getNextEntry bound) with
    | none => pure none
    | some entry =>
      let nextLong ← if 0 < left then onVolume (orPanic (asLong entry)) else pure longEntry
      longNameEntries bound left nextLong (parts ++ [longEntry.name]) entry

/-- The end of `next`: the node of an entry that has to be a normal one. -/
def nodeOf (entry : List UInt8) (longName : Option (List Char)) : DirM FatNode := do
  let normalEntry ← onVolume (orPanic (asNormal entry))
  let iter := (← get).iter
  onVolume (assertThat (0 < iter.entryIndexInSector))
  pure ⟨normalEntry, longName, iter.currentSectorIndex, iter.entryIndexInSector - 1⟩

variable (bound : Nat)

/-- `DirectoryIterator::next`. -/
def nextNode : DirM (Option FatNode) := do
  match ← nextUsed bound bound with
  | none => pure none
  | some entry =>
    if isLong entry then
      let longEntry ← onVolume (orPanic (asLong entry))
      onVolume (assertThat (longEntry.sequenceNumber &&& 0x40 = 0x40))
      let numberOfEntries := (longEntry.sequenceNumber &&& 0x3F).toNat
      match ← longNameEntries bound numberOfEntries longEntry [] entry with
      | none => pure none
      | some (parts, entry) => some <$> nodeOf entry (some (longEntriesNameMerge parts))
    else some <$> nodeOf entry none

/-! ## Reading a directory -/

/-- A `for` loop over the nodes of a directory, whose body panics or says how to go on. -/
def forNodes {τ : Type} (bound : Nat) (body : τ → FatNode → Option (ForInStep τ)) :
    Nat → τ → DirM τ
  | 0, _ => throw .unfinished
  | turns + 1, t => do
    match ← nextNode bound with
    | none => pure t
    | some node =>
      match ← onVolume (orPanic (body t node)) with
      | .done t => pure t
      | .yield t => forNodes bound body turns t

/-- A program that is given the iterator over a directory, which is then dropped. -/
def withIterator {α : Type} (inode : DirectoryNode) (p : DirM α) :
    EStateM DirFailure FatFilesystem α := fun fs =>
  match openDirInode inode fs with
  | .error failure fs => .error (.failure failure) fs
  | .ok iter fs =>
    match (do let a ← p; flushCurrentSector; pure a : DirM α) ⟨fs, iter⟩ with
    | .ok a s => .ok a s.fs
    | .error stop s => .error stop s.fs

section
variable {τ : Type}

/-- The body of the loop of `read_dir`: the handler, with its own state, is given the node. -/
def handleNode (handler : τ → Node → τ × DirTreverse) (t : τ) (node : FatNode) :
    Option (ForInStep τ) := do
  let node ← node.toNode
  match handler t node with
  | (t, .stop) => some (.done t)
  | (t, .cont) => some (.yield t)

/-- `read_dir`, with the state of the handler after it. -/
def readDir (inode : DirectoryNode) (handler : τ → Node → τ × DirTreverse) (t : τ) :
    EStateM DirFailure FatFilesystem τ :=
  withIterator inode (forNodes bound (handleNode handler) bound t)

end

/-- The body of the loop of `treverse_dir`, which returns the node that matches. -/
def matchNode (matcher : List Char) (_ : Option Node) (node : FatNode) :
    Option (ForInStep (Option Node)) := do
  if ← node.matchesName matcher then
    let node ← node.toNode
    some (.done (some node))
  else some (.yield none)

/-- `treverse_dir`. -/
def treverseDir (inode : DirectoryNode) (matcher : List Char) :
    EStateM DirFailure FatFilesystem Node := do
  match ← withIterator inode (forNodes bound (matchNode matcher) bound none) with
  | some node => pure node
  | none => throw (.failure (.err .fileNotFound))

end Emerald.Fs
