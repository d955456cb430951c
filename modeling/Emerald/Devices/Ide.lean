
import Emerald.Misc.Outcome

/-!
# ATA transfers over the IDE ports

`kernel/src/devices/ide.rs`, the synchronous transfers of an ATA device: the register writes of
`AtaCommand`, the loops over the data port, and the chunks of `read_sync` and `write_sync`.
The ATAPI half of the file, which goes through packets, is left out.

`Channel` is the device behind the ports. It carries out a `READ SECTORS` or `WRITE SECTORS`
command at the 28-bit address in its registers, hands a word over each time the data port is
accessed during a transfer, and is busy for as many reads of its status as it likes.
-/

namespace Emerald.Devices.Ide

/-! ## The device behind the ports -/

/-- The registers of the command block that are written. -/
inductive Register where
  | features | sectorCount | lbaLo | lbaMid | lbaHi | drive | command
  deriving DecidableEq

/-- What one of the two drives of a channel holds. -/
structure Medium where
  sectorSize : Nat
  byte : Nat → Nat → UInt8

/-- A command that is being carried out, and how many of its bytes are through. -/
structure Transfer where
  write : Bool
  second : Bool
  lba : Nat
  count : Nat
  done : Nat
  deriving DecidableEq

structure Channel where
  features : UInt8
  sectorCount : UInt8
  lbaLo : UInt8
  lbaMid : UInt8
  lbaHi : UInt8
  drive : UInt8
  /-- The error register, and its bit in the status. -/
  error : UInt8
  failed : Bool
  transfer : Option Transfer
  /-- How many more reads of the status find the device busy. -/
  busy : Nat
  /-- How long it is busy after its next actions. -/
  latency : Nat → Nat
  /-- Which of its next commands fail, and with what error. -/
  fault : Nat → Option UInt8
  actions : Nat
  media : Bool → Medium
  /-- The drive and sector of each sector that a command was carried out at, in order. -/
  touched : List (Bool × Nat)

def commandReadSectors : UInt8 := 0x20
def commandWriteSectors : UInt8 := 0x30

def statusErr : UInt8 := 1
def statusDataRequest : UInt8 := 8
def statusReady : UInt8 := 0x40
def statusBusy : UInt8 := 0x80

def errorAborted : UInt8 := 4

namespace Channel
variable (c : Channel)

/-- The device acts, and is busy for a while. -/
def act : Channel :=
  { c with busy := c.latency c.actions, actions := c.actions + 1 }

/-- The address in the registers. -/
def lba : Nat :=
  c.lbaLo.toNat + c.lbaMid.toNat * 2 ^ 8 + c.lbaHi.toNat * 2 ^ 16 +
    (c.drive &&& 0xF).toNat * 2 ^ 24

/-- A count of 0 stands for 256. -/
def count : Nat := if c.sectorCount = 0 then 256 else c.sectorCount.toNat

/-- Bit 4 of the drive register. -/
def second : Bool := c.drive &&& 0x10 != 0

def start (command : UInt8) : Channel :=
  if command = commandReadSectors ∨ command = commandWriteSectors then
    match c.fault c.actions with
    | some error => { c.act with failed := true, error := error }
    | none =>
      { c.act with
        failed := false
        transfer := some { write := command = commandWriteSectors, second := c.second,
                           lba := c.lba, count := c.count, done := 0 }
        touched := c.touched ++ (List.range c.count).map fun i => (c.second, c.lba + i) }
  else { c.act with failed := true, error := errorAborted }

/-- The status register. While the device is busy its other bits are not valid. -/
def status : UInt8 :=
  if c.busy ≠ 0 then statusBusy
  else statusReady ||| (if c.transfer.isSome then statusDataRequest else 0) |||
    (if c.failed then statusErr else 0)

/-- Two more bytes are through. -/
def advance (t : Transfer) : Channel :=
  let done := t.done + 2
  let c := { c with
    transfer := if done = t.count * (c.media t.second).sectorSize then none
      else some { t with done := done } }
  if done % (c.media t.second).sectorSize = 0 then c.act else c

/-- The byte of a transfer at a position. -/
def byteAt (t : Transfer) (pos : Nat) : UInt8 :=
  (c.media t.second).byte (t.lba + pos / (c.media t.second).sectorSize)
    (pos % (c.media t.second).sectorSize)

def setByte (t : Transfer) (pos : Nat) (value : UInt8) : Channel :=
  let medium := c.media t.second
  { c with media := Function.update c.media t.second { medium with
      byte := Function.update medium.byte (t.lba + pos / medium.sectorSize)
        (Function.update (medium.byte (t.lba + pos / medium.sectorSize))
          (pos % medium.sectorSize) value) } }

end Channel

/-! ## The ports -/

/-- How a call stops short: with an error, a panic, or not at all. -/
inductive Stop (ε : Type) where
  | err (error : ε)
  | panic
  | spins
  deriving DecidableEq

/-- `Result::map_err`. -/
def Stop.mapErr {ε ε' : Type} (f : ε → ε') : Stop ε → Stop ε'
  | .err error => .err (f error)
  | .panic => .panic
  | .spins => .spins

/-- A check that stops the call. -/
def ensure {ε : Type} (check : Prop) [Decidable check] (stop : Stop ε) :
    EStateM (Stop ε) Channel Unit :=
  if check then return () else throw stop

/-- Code over the ports whose errors are those of the device. -/
abbrev IdeIo := EStateM (Stop UInt8) Channel

def writeCommandBlock (offset : Register) (value : UInt8) : IdeIo Unit :=
  modify fun c =>
    match offset with
    | .features => { c with features := value }
    | .sectorCount => { c with sectorCount := value }
    | .lbaLo => { c with lbaLo := value }
    | .lbaMid => { c with lbaMid := value }
    | .lbaHi => { c with lbaHi := value }
    | .drive => { c with drive := value }
    | .command => c.start value

def readStatus : IdeIo UInt8 := do
  let c ← get
  set { c with busy := c.busy - 1 }
  return c.status

def readError : IdeIo UInt8 := return (← get).error

/-- The data port. A transfer hands its words over also while the device is busy, and it is for the
driver to wait. -/
def readData : IdeIo UInt16 := do
  let c ← get
  match c.transfer with
  | some t =>
    set (c.advance t)
    return (c.byteAt t t.done).toUInt16 ||| ((c.byteAt t (t.done + 1)).toUInt16 <<< 8)
  | none => return 0xFFFF

def writeData (value : UInt16) : IdeIo Unit :=
  modify fun c =>
    match c.transfer with
    | some t =>
      ((c.setByte t t.done (value &&& 0xFF).toUInt8).setByte t (t.done + 1)
        (value >>> 8 &&& 0xFF).toUInt8).advance t
    | none => c

/-- The loop of `wait_until_free`, for some rounds. -/
def waitLoop : Nat → IdeIo Unit
  | 0 => throw .spins
  | rounds + 1 => do
    let status ← readStatus
    if status &&& statusBusy != 0 then waitLoop rounds else return ()

/-- `wait_until_free`: the device is busy for finitely many rounds. -/
def waitUntilFree : IdeIo Unit := do
  let c ← get
  waitLoop (c.busy + 1)

/-- The loop of `wait_until_can_command`, for some rounds. -/
def canCommandLoop : Nat → IdeIo Unit
  | 0 => throw .spins
  | rounds + 1 => do
    let status ← readStatus
    if status &&& (statusBusy ||| statusDataRequest) != 0 then
      if status &&& statusErr != 0 then
        throw (.err (← readError))
      else canCommandLoop rounds
    else return ()

/-- `wait_until_can_command`: what it waits for only changes while the device is busy. -/
def waitUntilCanCommand : IdeIo Unit := do
  waitUntilFree
  let c ← get
  canCommandLoop (c.busy + 1)

/-- The loops over the data port wait at every 256th word. -/
def waitEvery (i : Nat) : IdeIo Unit :=
  if i % 256 = 0 then waitUntilFree else return ()

/-- The check before the data: `if self.read_status() & ata::STATUS_ERR != 0`. -/
def checkError : IdeIo Unit := do
  let status ← readStatus
  if status &&& statusErr != 0 then throw (.err (← readError)) else return ()

/-- The check after the data, an assertion. -/
def checkNoDataRequest : IdeIo Unit := do
  waitUntilFree
  let status ← readStatus
  ensure (status &&& statusDataRequest = 0) .panic

/-- The words `i..` of `read_data_block`. -/
def readWords : Nat → Nat → IdeIo (List UInt8)
  | _, 0 => return []
  | i, words + 1 => do
    waitEvery i
    let word ← readData
    let rest ← readWords (i + 1) words
    return (word &&& 0xFF).toUInt8 :: (word >>> 8 &&& 0xFF).toUInt8 :: rest

/-- `read_data_block` into a buffer of this length. -/
def readDataBlock (len : Nat) : IdeIo (List UInt8) := do
  checkError
  let data ← readWords 0 (len / 2)
  checkNoDataRequest
  return data

/-- The words `i..` of `write_data_block`. -/
def writeWords : Nat → List UInt8 → IdeIo Unit
  | i, low :: high :: rest => do
    waitEvery i
    writeData (low.toUInt16 ||| (high.toUInt16 <<< 8))
    writeWords (i + 1) rest
  | _, _ => return ()

/-- `write_data_block`. -/
def writeDataBlock (data : List UInt8) : IdeIo Unit := do
  checkError
  writeWords 0 data
  checkNoDataRequest

/-! ## Commands -/

structure AtaCommand where
  command : UInt8
  drive : UInt8
  lba : Nat
  sectorCount : UInt8
  features : UInt8

namespace AtaCommand

/-- `AtaCommand::new`: the 6th bit of the drive selects LBA mode. -/
def new (command : UInt8) : AtaCommand :=
  { command := command, drive := 0x40, lba := 0, sectorCount := 0, features := 0 }

variable (cmd : AtaCommand)

def withSecondDrive (isSecond : Bool) : AtaCommand :=
  if isSecond then { cmd with drive := cmd.drive ||| 0x10 }
  else { cmd with drive := cmd.drive &&& ~~~0x10 }

def withLba (lba : Nat) : AtaCommand := { cmd with lba := lba }

def withSectorCount (sectorCount : UInt8) : AtaCommand :=
  { cmd with sectorCount := sectorCount }

def write : IdeIo Unit := do
  writeCommandBlock .features cmd.features
  writeCommandBlock .sectorCount cmd.sectorCount
  writeCommandBlock .lbaLo (UInt8.ofNat (cmd.lba % 2 ^ 8))
  writeCommandBlock .lbaMid (UInt8.ofNat (cmd.lba / 2 ^ 8 % 2 ^ 8))
  writeCommandBlock .lbaHi (UInt8.ofNat (cmd.lba / 2 ^ 16 % 2 ^ 8))
  writeCommandBlock .drive cmd.drive
  writeCommandBlock .command cmd.command

def executeRead (len : Nat) : IdeIo (List UInt8) := do
  ensure (len % 2 = 0) .panic
  waitUntilCanCommand
  cmd.write
  readDataBlock len

def executeWrite (data : List UInt8) : IdeIo Unit := do
  ensure (data.length % 2 = 0) .panic
  waitUntilCanCommand
  cmd.write
  writeDataBlock data

end AtaCommand

/-! ## The device -/

inductive IdeError where
  | deviceError (error : UInt8)
  | unalignedSize
  | boundsExceeded
  deriving DecidableEq

/-- The part of `CommandIdentifyDataRaw` that gives the size of a sector. -/
structure CommandIdentifyDataRaw where
  physicalLogicalSectorSize : BitVec 16
  logicalSectorSize : BitVec 32

/-- `sector_size`; `none` is a panic, of the assertion or of the multiplication. -/
def CommandIdentifyDataRaw.sectorSize (identify : CommandIdentifyDataRaw) : Option Nat :=
  if identify.physicalLogicalSectorSize &&& (1 <<< 12) ≠ 0 ∧ identify.logicalSectorSize ≠ 0 then
    if 256 ≤ identify.logicalSectorSize.toNat ∧ identify.logicalSectorSize.toNat * 2 < 2 ^ 32 then
      some (identify.logicalSectorSize.toNat * 2)
    else none
  else some 512

/-- An `IdeDevice` of type ATA, with the size of a sector that `init_new` gives it. -/
structure AtaDevice where
  numberOfSectors : Nat
  sectorSize : Nat
  secondDeviceSelect : Bool
  identified : ∃ identify : CommandIdentifyDataRaw, identify.sectorSize = some sectorSize

namespace AtaDevice
variable (dev : AtaDevice)

def readSyncAta (startSector lenSectors len : Nat) : IdeIo (List UInt8) := do
  ensure (lenSectors ≤ 255) .panic
  ((AtaCommand.new commandReadSectors).withLba startSector
    |>.withSectorCount (UInt8.ofNat lenSectors)
    |>.withSecondDrive dev.secondDeviceSelect).executeRead len

def writeSyncAta (startSector lenSectors : Nat) (data : List UInt8) : IdeIo Unit := do
  ensure (lenSectors ≤ 255) .panic
  ((AtaCommand.new commandWriteSectors).withLba startSector
    |>.withSectorCount (UInt8.ofNat lenSectors)
    |>.withSecondDrive dev.secondDeviceSelect).executeWrite data

/-- Code of the device: the errors of the ports are `DeviceError`s. -/
abbrev Io := EStateM (Stop IdeError) Channel

/-- `map_err(IdeError::DeviceError)`. -/
def deviceError {α : Type} (io : IdeIo α) : Io α :=
  EStateM.adaptExcept (Stop.mapErr .deviceError) io

/-- The loop of `read_sync`: at most `rounds` chunks. -/
def readChunks : Nat → Nat → Nat → List UInt8 → Io (List UInt8)
  | _, _, 0, _ => return []
  | 0, _, _ + 1, _ => throw .spins
  | rounds + 1, startSector, numberOfSectors, data => do
    let numNow := min numberOfSectors 255
    let nowLen := numNow * dev.sectorSize
    ensure (nowLen ≤ data.length) .panic
    let nowData ← deviceError (dev.readSyncAta startSector numNow nowLen)
    ensure (startSector + numNow < 2 ^ 64) .panic
    let afterward ← readChunks rounds (startSector + numNow) (numberOfSectors - numNow)
      (data.drop nowLen)
    return nowData ++ afterward

/-- The loop of `write_sync`: at most `rounds` chunks. -/
def writeChunks : Nat → Nat → Nat → List UInt8 → Io Unit
  | _, _, 0, _ => return ()
  | 0, _, _ + 1, _ => throw .spins
  | rounds + 1, startSector, numberOfSectors, data => do
    let numNow := min numberOfSectors 255
    let nowLen := numNow * dev.sectorSize
    ensure (nowLen ≤ data.length) .panic
    deviceError (dev.writeSyncAta startSector numNow (data.take nowLen))
    ensure (startSector + numNow < 2 ^ 64) .panic
    writeChunks rounds (startSector + numNow) (numberOfSectors - numNow) (data.drop nowLen)

/-- The checks before a transfer: the number of sectors the buffer covers. -/
def checkTransfer (startSector : BitVec 64) (len : Nat) : Io Nat := do
  ensure (len % dev.sectorSize = 0) (.err .unalignedSize)
  let numberOfSectors := len / dev.sectorSize
  -- `checked_add`
  ensure (startSector.toNat + numberOfSectors < 2 ^ 64) (.err .boundsExceeded)
  ensure (startSector.toNat + numberOfSectors < dev.numberOfSectors) (.err .boundsExceeded)
  return numberOfSectors

/-- `read_sync`: what the buffer holds at the end. -/
def readSync (startSector : BitVec 64) (data : List UInt8) : Io (List UInt8) := do
  let numberOfSectors ← dev.checkTransfer startSector data.length
  dev.readChunks numberOfSectors startSector.toNat numberOfSectors data

/-- `write_sync`. -/
def writeSync (startSector : BitVec 64) (data : List UInt8) : Io Unit := do
  let numberOfSectors ← dev.checkTransfer startSector data.length
  dev.writeChunks numberOfSectors startSector.toNat numberOfSectors data

end AtaDevice

end Emerald.Devices.Ide
