
import Emerald.Fs.Fat.Directory
import Emerald.Misc.Utf8

/-!
# The entries of a name

`create_dir_entries` of `kernel/src/fs/fat.rs`, which makes the entries for a new name, and
`increment_short_name`. The name is cut at numbers of bytes and its characters are stored in 16 bits
each. `none` is a panic.
-/

namespace Emerald.Fs

/-- `file_attribute_to_fat`. -/
def fileAttributeToFat (attributes : UInt8) : UInt8 :=
  [0x01, 0x02, 0x04, 0x08, directoryAttribute, 0x20].foldl
    (fun fatAttributes bit =>
      if attributes &&& bit ≠ 0 then fatAttributes ||| bit else fatAttributes) 0

/-- `u8::to_ascii_uppercase`. -/
def toAsciiUppercase (byte : UInt8) : UInt8 :=
  if 0x61 ≤ byte ∧ byte ≤ 0x7A then byte - 0x20 else byte

/-- The first `count` bytes in upper case, with spaces after them. -/
def shortBytes (count : Nat) (bytes : List UInt8) : List UInt8 :=
  (List.range count).map fun i => (bytes[i]?.map toAsciiUppercase).getD 0x20

variable (name : List Char)

/-- What is before the first dot of a name. -/
def filenameOf : List Char := name.takeWhile (· != '.')

/-- What is after the first dot of a name. -/
def extensionOf : List Char := (name.dropWhile (· != '.')).drop 1

/-- The short name for a name: a long one keeps six bytes. -/
def shortNameOf : Option (List UInt8) := do
  let filename := filenameOf name
  let extension := shortBytes 3 (utf8Bytes (extensionOf name))
  if 8 < utf8Len filename then
    let (filename, _) ← splitAtByte 6 filename
    some (((shortBytes 8 (utf8Bytes filename)).set 6 0x7E).set 7 0x31 ++ extension)
  else some (shortBytes 8 (utf8Bytes filename) ++ extension)

/-- The digits of `format!("{}", number)`. -/
def decimal (number : Nat) : List UInt8 :=
  (Nat.toDigits 10 number).map fun digit => UInt8.ofNat digit.toNat

/-- `increment_short_name`. The number takes one byte more where it gains a digit, and the byte is
the one of the `~`. -/
def incrementShortName (shortName : List UInt8) : Option (List UInt8) := do
  let baseName := shortName.take 8
  let teldaPos ← baseName.findIdx? (· == 0x7E)
  if 6 < teldaPos then none
  else
    let currentNumSize := 8 - teldaPos - 1
    let currentNum ← (baseName.drop (teldaPos + 1)).foldlM (fun acc x =>
      if 0x30 ≤ x ∧ x ≤ 0x39 then some (acc * 10 + (x - 0x30).toNat) else none) 0
    let newNum := currentNum + 1
    if 999999 < newNum then none
    else
      let newNumStr := decimal newNum
      let teldaPos := if currentNumSize < newNumStr.length then teldaPos - 1 else teldaPos
      if 8 - (teldaPos + 1) = newNumStr.length then
        some (splice shortName (teldaPos + 1) newNumStr)
      else none

/-- `name_checksum`. -/
def DirectoryEntryNormal.nameChecksum (entry : DirectoryEntryNormal) : UInt8 :=
  entry.shortName.foldl (fun checksum c => ((checksum &&& 1) <<< 7) + (checksum >>> 1) + c) 0

/-- The bytes of a long entry for the short name with the given checksum. -/
def DirectoryEntryLong.toRaw (entry : DirectoryEntryLong) (checksum : UInt8) : List UInt8 :=
  [entry.sequenceNumber] ++ entry.name1.flatMap (toLE 2) ++ [longName, 0, checksum] ++
    entry.name2.flatMap (toLE 2) ++ [0, 0] ++ entry.name3.flatMap (toLE 2)

/-- The characters of a part of a name, each in 16 bits, with zeros after them. -/
def unitsOf (part : List Char) : List Nat :=
  (List.range 13).map fun i => (part.getD i (Char.ofNat 0)).toNat % 2 ^ 16

/-- A long entry for a part of a name. -/
def longEntry (sequenceNumber : UInt8) (part : List Char) : DirectoryEntryLong where
  sequenceNumber := sequenceNumber
  name1 := (unitsOf part).take 5
  name2 := ((unitsOf part).drop 5).take 6
  name3 := (unitsOf part).drop 11

/-- The loop of `create_dir_entries` over the parts of a name of 13 bytes, which takes at most one
turn for each character. -/
def createLongEntries : Nat → UInt8 → List Char → Option (List DirectoryEntryLong)
  | _, _, [] => some []
  | 0, _, _ :: _ => none
  | turns + 1, sequenceNumber, longName => do
    let (part, rest) ← splitAtByte (min (utf8Len longName) 13) longName
    let number := if rest.isEmpty then sequenceNumber ||| 0x40 else sequenceNumber
    let entries ← createLongEntries turns (sequenceNumber + 1) rest
    some (longEntry number part :: entries)

/-- `create_dir_entries`. -/
def createDirEntries (attributes : UInt8) :
    Option (DirectoryEntryNormal × List DirectoryEntryLong) := do
  let shortName ← shortNameOf name
  let longEntries ← createLongEntries name.length 1 name
  some (⟨shortName, fileAttributeToFat attributes, 0, 0, 0⟩, longEntries)

end Emerald.Fs
