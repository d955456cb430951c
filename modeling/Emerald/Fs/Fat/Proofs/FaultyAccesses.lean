
import Emerald.Fs.Fat.Proofs.Geometry
import Emerald.Devices.Proofs.IdeTransfers

/-!
# Programs and the faults of the device

A program that makes a known number of accesses when the device works makes the same ones until the
device refuses one of them, and stops there. Everything else that it does depends on the disk and
not on the fault that is to come.
-/

namespace Emerald.Fs

open FatFilesystem

variable {startSector : Nat}

/-- What is left before the next fault after a number of accesses, or the error of the one that is
refused among them. -/
def afterAccesses (count : Nat) : FaultIn → Except IdeError FaultIn
  | none => .ok none
  | some (left, error) => if count ≤ left then .ok (some (left - count, error)) else .error error

theorem afterAccesses_zero (faultIn : FaultIn) : afterAccesses 0 faultIn = .ok faultIn := by
  cases faultIn with
  | none => rfl
  | some fault =>
    rfl

theorem afterAccesses_add (m n : Nat) (faultIn : FaultIn) :
    afterAccesses (m + n) faultIn = afterAccesses m faultIn >>= afterAccesses n := by
  cases faultIn with
  | none => rfl
  | some fault =>
    obtain ⟨left, error⟩ := fault
    unfold afterAccesses
    dsimp only
    by_cases first : m ≤ left
    · rw [if_pos first]
      show _ = if n ≤ left - m then _ else _
      by_cases second : n ≤ left - m
      · rw [if_pos (by omega), if_pos second, Nat.sub_add_eq]
      · rw [if_neg (by omega), if_neg second]
    · rw [if_neg first, if_neg (by omega)]
      rfl

/-- The program returns after the given number of accesses, unless the device refuses one. -/
structure MakesAccesses {α : Type} (p : FatM α) (fs : FatFilesystem) (count : Nat) (a : α)
    (t : FatFilesystem) : Prop where
  returns : ∀ f g, afterAccesses count f = .ok g → p (fs.withFaultIn f) = .ok a (t.withFaultIn g)
  stops : ∀ f e, afterAccesses count f = .error e →
    ∃ sector u, p (fs.withFaultIn f) = .error (.err (.diskReadError sector e)) u

section
variable {α β : Type} {fs t u : FatFilesystem} {m n count : Nat} {a : α} {b : β}
variable {p : FatM α} {q : α → FatM β} {data : List UInt8}

theorem MakesAccesses.bind (first : MakesAccesses p fs m a t)
    (second : MakesAccesses (q a) t n b u) : MakesAccesses (p >>= q) fs (m + n) b u where
  returns f g served := by
    rw [afterAccesses_add] at served
    obtain ⟨f', served, served'⟩ := exists_of_bind_eq_ok served
    rw [bind_of_ok (first.returns f f' served)]
    exact second.returns f' g served'
  stops f e refused := by
    rw [afterAccesses_add] at refused
    cases served : afterAccesses m f with
    | error e' =>
      rw [served] at refused
      cases refused
      obtain ⟨sector, u, stopped⟩ := first.stops f e served
      exact ⟨sector, u, bind_of_error stopped⟩
    | ok f' =>
      rw [served] at refused
      obtain ⟨sector, u, stopped⟩ := second.stops f' e refused
      exact ⟨sector, u, by rw [bind_of_ok (first.returns f f' served), stopped]⟩

/-- A part that makes no access. -/
theorem MakesAccesses.after (first : MakesAccesses p fs 0 a t)
    (second : MakesAccesses (q a) t n b u) : MakesAccesses (p >>= q) fs n b u :=
  zero_add n ▸ first.bind second

theorem MakesAccesses.before (first : MakesAccesses p fs m a t)
    (second : MakesAccesses (q a) t 0 b u) : MakesAccesses (p >>= q) fs m b u :=
  first.bind second

theorem accesses_of_eq (run : ∀ f, p (fs.withFaultIn f) = .ok a (t.withFaultIn f)) :
    MakesAccesses p fs 0 a t where
  returns f g served := by
    rw [afterAccesses_zero] at served
    cases served
    exact run f
  stops f e refused := by
    rw [afterAccesses_zero] at refused
    cases refused

theorem accesses_pure (a : α) : MakesAccesses (pure a : FatM α) fs 0 a fs :=
  accesses_of_eq fun _ => rfl

theorem MakesAccesses.get {q : FatFilesystem → FatM β} (same : ∀ f, q (fs.withFaultIn f) = q fs)
    (rest : MakesAccesses (q fs) fs n b u) : MakesAccesses (MonadState.get >>= q) fs n b u where
  returns f g served := by
    rw [get_bind, same]
    exact rest.returns f g served
  stops f e refused := by
    rw [get_bind, same]
    exact rest.stops f e refused

theorem accesses_modify {h : FatFilesystem → FatFilesystem}
    (same : ∀ f, h (fs.withFaultIn f) = (h fs).withFaultIn f) :
    MakesAccesses (modify h) fs 0 () (h fs) :=
  accesses_of_eq fun f => congrArg (EStateM.Result.ok ()) (same f)

theorem accesses_assertThat {condition : Bool} (holds : condition = true) :
    MakesAccesses (assertThat condition) fs 0 () fs := by
  subst holds
  exact accesses_pure ()

theorem accesses_orPanic {value : Option α} (found : value = some a) :
    MakesAccesses (orPanic value) fs 0 a fs := by
  subst found
  exact accesses_pure a

theorem accesses_accessDisk (startSector : Nat) :
    MakesAccesses (accessDisk startSector) fs 1 () fs where
  returns f g served := by
    cases f with
    | none =>
      cases served
      rfl
    | some fault =>
      obtain ⟨left, error⟩ := fault
      cases left with
      | zero => cases served
      | succ left =>
        cases served
        rfl
  stops f e refused := by
    cases f with
    | none => cases refused
    | some fault =>
      obtain ⟨left, error⟩ := fault
      cases left with
      | zero =>
        cases refused
        exact ⟨_, _, rfl⟩
      | succ left => cases refused

theorem withFaultIn_healthy (healthy : fs.disk.faultIn = none) : fs.withFaultIn none = fs := by
  rw [← healthy, withFaultIn_self]

/-- What the program does on a device that works. -/
theorem MakesAccesses.healthy (accesses : MakesAccesses p fs n a t)
    (healthy : fs.disk.faultIn = none) : p fs = .ok a (t.withFaultIn none) := by
  have run := accesses.returns none none rfl
  rwa [← healthy, withFaultIn_self, healthy] at run

/-- The state at the end is fixed up to its faults. -/
theorem MakesAccesses.toHealthy (accesses : MakesAccesses p fs n a t) :
    MakesAccesses p fs n a (t.withFaultIn none) := ⟨accesses.returns, accesses.stops⟩

theorem accesses_readSectorsNoCache {startSector : Nat} (some : count ≠ 0)
    (fits : fs.bootSector.bytesPerSector * count ≤ MemoryManagement.kernelHeapSize) :
    MakesAccesses (readSectorsNoCache startSector count) fs 1
      (readBytes fs.disk.bytes (startSector * fs.bootSector.bytesPerSector)
        (fs.bootSector.bytesPerSector * count)) fs := by
  unfold readSectorsNoCache
  rw [if_neg some]
  refine .get (fun _ => rfl) (.after (accesses_assertThat (decide_eq_true fits)) ?_)
  refine .before (accesses_accessDisk startSector) ?_
  exact .get (fun _ => rfl) (accesses_pure _)

theorem accesses_writeSectors (some : data ≠ [])
    (whole : data.length % fs.bootSector.bytesPerSector = 0) :
    MakesAccesses (writeSectors startSector data) fs 1 ()
      (fs.storeBytes (startSector * fs.bootSector.bytesPerSector) data) := by
  unfold writeSectors
  rw [if_neg some]
  refine .get (fun _ => rfl) (.after (accesses_assertThat (decide_eq_true whole)) ?_)
  refine .before (accesses_accessDisk startSector) ?_
  exact accesses_modify fun _ => rfl

/-- Writing one sector. -/
theorem accesses_writeSector (whole : data.length = fs.bootSector.bytesPerSector) :
    MakesAccesses (writeSectors startSector data) fs 1 ()
      (fs.storeBytes (startSector * fs.bootSector.bytesPerSector) data) := by
  refine accesses_writeSectors ?_ (by rw [whole, Nat.mod_self])
  intro empty
  rw [empty] at whole
  exact absurd whole (ne_of_lt fs.bootSector.bytesPerSector_pos)

theorem readSectorsNoCache_healthy (healthy : fs.disk.faultIn = none)
    (fits : fs.bootSector.bytesPerSector * count ≤ MemoryManagement.kernelHeapSize) :
    readSectorsNoCache startSector count fs =
      .ok (readBytes fs.disk.bytes (startSector * fs.bootSector.bytesPerSector)
        (fs.bootSector.bytesPerSector * count)) fs := by
  by_cases none : count = 0
  · subst none
    rfl
  · rw [(accesses_readSectorsNoCache none fits).healthy healthy, withFaultIn_healthy healthy]

end

/-! ## The disk of an ATA device -/

section
open Devices.Ide

/-- The filesystem is in a partition of an ATA device that carries out every command, and has the
sectors of the device. -/
structure OnDevice (fs : FatFilesystem) (dev : AtaDevice) (c : Channel) : Prop where
  ready : Ready dev c
  sized : fs.bootSector.bytesPerSector = dev.sectorSize
  healthy : fs.disk.faultIn = none
  bytes : ∀ address, fs.disk.bytes address =
    (c.media dev.secondDeviceSelect).cell (fs.startLba * dev.sectorSize + address)

variable {fs : FatFilesystem} {dev : AtaDevice} {c : Channel} {count : Nat} {data : List UInt8}
  (on : OnDevice fs dev c) (bounded : dev.numberOfSectors ≤ 2 ^ 28)
  (covers : data.length = count * dev.sectorSize)
  (within : fs.startLba + startSector + count < dev.numberOfSectors)
  (low : Addressable (fs.startLba + startSector) count)
include on bounded covers within low

/-- `read_sync` fills the buffer with what the disk of the filesystem holds. -/
theorem OnDevice.read (fits : data.length ≤ MemoryManagement.kernelHeapSize) :
    ∃ bytes c', readSectorsNoCache startSector count fs = .ok bytes fs ∧
      dev.readSync (BitVec.ofNat 64 (fs.startLba + startSector)) data c = .ok bytes c' ∧
      OnDevice fs dev c' := by
  have sector : (BitVec.ofNat 64 (fs.startLba + startSector)).toNat = fs.startLba + startSector :=
    by rw [BitVec.toNat_ofNat, Nat.mod_eq_of_lt (by omega)]
  obtain ⟨buffer, c', reads, ready, media, -, cells⟩ := dev.readChunks_run count
    (fs.startLba + startSector) count le_rfl data c on.ready covers (by omega)
  refine ⟨buffer, c', ?_, ?_, ready, on.sized, on.healthy, fun address => by
    rw [media, on.bytes]⟩
  · rw [covers, mul_comm, ← on.sized] at fits
    rw [readSectorsNoCache_healthy on.healthy fits, cells low, readBytes, cellsFrom,
      on.ready.sized, on.sized, mul_comm dev.sectorSize]
    simp only [on.bytes, ← add_assoc, add_mul]
  · rw [← sector] at within
    rw [AtaDevice.readSync, bind_of_ok (AtaDevice.checkTransfer_passes bounded covers within),
      sector]
    exact reads

/-- `write_sync` stores the buffer where the disk of the filesystem has it. -/
theorem OnDevice.write (some : data ≠ []) :
    ∃ c', writeSectors startSector data fs = .ok () (fs.storeSectors startSector data) ∧
      dev.writeSync (BitVec.ofNat 64 (fs.startLba + startSector)) data c = .ok () c' ∧
      OnDevice (fs.storeSectors startSector data) dev c' := by
  have sector : (BitVec.ofNat 64 (fs.startLba + startSector)).toNat = fs.startLba + startSector :=
    by rw [BitVec.toNat_ofNat, Nat.mod_eq_of_lt (by omega)]
  obtain ⟨c', writes, ready, -, wrote⟩ := dev.writeChunks_run count
    (fs.startLba + startSector) count le_rfl data c on.ready covers (by omega)
  refine ⟨c', ?_, ?_, ready, on.sized, on.healthy, fun address => ?_⟩
  · have whole : data.length % fs.bootSector.bytesPerSector = 0 := by
      rw [covers, on.sized, Nat.mul_mod_left]
    rw [(accesses_writeSectors some whole).healthy on.healthy]
    exact congrArg (EStateM.Result.ok ()) (withFaultIn_healthy on.healthy)
  · rw [← sector] at within
    rw [AtaDevice.writeSync, bind_of_ok (AtaDevice.checkTransfer_passes bounded covers within),
      sector]
    exact writes
  · show writeBytes _ (startSector * fs.bootSector.bytesPerSector) data address =
      (c'.media dev.secondDeviceSelect).cell (fs.startLba * dev.sectorSize + address)
    rw [(wrote low).cell, writeBytes, on.sized, on.bytes, add_mul, List.getD_eq_getElem?_getD]
    by_cases inside : startSector * dev.sectorSize ≤ address ∧
        address < startSector * dev.sectorSize + data.length
    · rw [if_pos inside, if_pos ⟨rfl, by omega, by omega⟩, Nat.add_sub_add_left]
    · rw [if_neg inside, if_neg (by omega)]

end

end Emerald.Fs
