
import Emerald.Devices.Proofs.IdePorts

/-!
# Transfers reach the sectors they name

A transfer is one command per chunk of at most 255 sectors. It is right unless it ends with the last
sector of the device, which the check of the bounds excludes, or a chunk starts at a sector that
does not fit the 24 bits of the registers.
-/

namespace Emerald.Devices.Ide

variable {rest now startSector count : Nat} {c c' : Channel} {data : List UInt8}

/-! ## Chunks -/

/-- Every chunk of a transfer starts below the 2^24 sectors that the registers can name. -/
def Addressable (startSector n : Nat) : Prop := ∀ k, 255 * k < n → startSector + 255 * k < 2 ^ 24

/-- What a round of a transfer takes now, and what it leaves. -/
structure Chunk (now rest : Nat) : Prop where
  some_ : 0 < now
  few : min (now + rest) 255 = now

/-- Induction over the rounds of a transfer. -/
theorem chunks_induction {P : (rounds startSector n : Nat) → n ≤ rounds → Prop}
    (none : ∀ rounds startSector, P rounds startSector 0 (Nat.zero_le _))
    (round : ∀ rounds startSector now rest (enough : rest ≤ rounds)
      (more : now + rest ≤ rounds + 1), Chunk now rest → P rounds (startSector + now) rest enough →
        P (rounds + 1) startSector (now + rest) more) (rounds startSector n : Nat)
    (enough : n ≤ rounds) : P rounds startSector n enough := by
  induction rounds generalizing startSector n with
  | zero =>
    obtain rfl : n = 0 := by omega
    exact none 0 startSector
  | succ rounds ih =>
    by_cases some_ : n = 0
    · subst some_
      exact none _ startSector
    · obtain ⟨now, rest, chunk, rfl⟩ : ∃ now rest, Chunk now rest ∧ n = now + rest :=
        ⟨min n 255, n - min n 255, ⟨by omega, by omega⟩, by omega⟩
      have := chunk.some_
      exact round rounds startSector now rest (by omega) enough chunk (ih _ _ _)

theorem addressable_iff (chunk : Chunk now rest) :
    Addressable startSector (now + rest) ↔ startSector < 2 ^ 24 ∧
      Addressable (startSector + now) rest := by
  obtain ⟨some_, few⟩ := chunk
  constructor
  · intro all
    constructor
    · have first := all 0 (by omega)
      omega
    · intro k inside
      have next := all (k + 1) (by omega)
      omega
  · rintro ⟨first, others⟩ k inside
    cases k with
    | zero => omega
    | succ k =>
      obtain rfl : now = 255 := by omega
      rw [Nat.mul_succ, add_comm (255 * k), ← add_assoc]
      exact others k (by omega)

variable (second : Bool)

theorem sectorsFrom_add (first count more : Nat) : sectorsFrom second first (count + more) =
      sectorsFrom second first count ++ sectorsFrom second (first + count) more := by
  unfold sectorsFrom
  rw [List.range_add, List.map_append, List.map_map]
  congr 1
  apply List.map_congr_left
  intro i _
  simp only [Function.comp, add_assoc]

variable (m : Medium)

theorem cellsFrom_add (first count more : Nat) : cellsFrom m first (count + more) =
      cellsFrom m first count ++ cellsFrom m (first + count) more := by
  unfold cellsFrom
  rw [add_mul, List.range_add, List.map_append, List.map_map]
  congr 1
  apply List.map_congr_left
  intro i _
  simp only [Function.comp, add_mul, add_assoc]

/-- The sectors that the commands of a transfer are carried out at. -/
def chunkSectors (second : Bool) : Nat → Nat → Nat → List (Bool × Nat)
  | _, _, 0 => []
  | 0, _, _ + 1 => []
  | rounds + 1, startSector, n =>
    sectorsFrom second (startSector % 2 ^ 24) (min n 255) ++
      chunkSectors second rounds (startSector + min n 255) (n - min n 255)

theorem Chunk.exists_succ (chunk : Chunk now rest) :
    ∃ n, now + rest = n + 1 ∧ min (n + 1) 255 = now ∧ n + 1 - now = rest := by
  obtain ⟨some_, few⟩ := chunk
  exact ⟨now + rest - 1, by omega, by omega, by omega⟩

theorem chunkSectors_add (rounds startSector : Nat) (chunk : Chunk now rest) :
    chunkSectors second (rounds + 1) startSector (now + rest) =
      sectorsFrom second (startSector % 2 ^ 24) now ++
        chunkSectors second rounds (startSector + now) rest := by
  obtain ⟨n, total, few, left⟩ := chunk.exists_succ
  rw [total, chunkSectors, few, left]
  exact Nat.succ_ne_zero n

theorem sectorsFrom_mod_iff (some_ : 0 < count) :
    sectorsFrom second (startSector % 2 ^ 24) count = sectorsFrom second startSector count ↔
      startSector < 2 ^ 24 := by
  constructor
  · intro same
    have head : (sectorsFrom second (startSector % 2 ^ 24) count)[0]? =
        (sectorsFrom second startSector count)[0]? := by rw [same]
    simp only [sectorsFrom, List.getElem?_map, List.getElem?_range some_, Option.map_some,
      Option.some.injEq, Prod.mk.injEq] at head
    omega
  · intro small
    rw [Nat.mod_eq_of_lt small]

theorem length_sectorsFrom (first count : Nat) :
    (sectorsFrom second first count).length = count := by
  simp [sectorsFrom]

/-- The commands name the sectors of the transfer exactly if each chunk starts low enough. -/
theorem chunkSectors_eq_iff (rounds startSector n : Nat) (enough : n ≤ rounds) :
    chunkSectors second rounds startSector n = sectorsFrom second startSector n ↔
      Addressable startSector n := by
  induction rounds, startSector, n, enough using chunks_induction with
  | none rounds startSector =>
    refine iff_of_true ?_ fun k inside => absurd inside (Nat.not_lt_zero _)
    unfold chunkSectors
    rfl
  | round rounds startSector now rest _ _ chunk ih =>
    rw [addressable_iff chunk, ← ih, ← sectorsFrom_mod_iff second chunk.some_,
      chunkSectors_add second rounds startSector chunk, sectorsFrom_add]
    constructor
    · intro same
      refine List.append_inj same ?_
      rw [length_sectorsFrom, length_sectorsFrom]
    · rintro ⟨first, others⟩
      rw [first, others]

namespace AtaDevice
variable (dev : AtaDevice)

theorem deviceError_run {α : Type} {io : IdeIo α} {a : α}
    (run : io c = .ok a c') : deviceError io c = .ok a c' := by
  unfold deviceError EStateM.adaptExcept
  rw [run]

/-- A round of the loop of `read_sync`. -/
theorem readChunks_add (rounds startSector : Nat) (chunk : Chunk now rest) (data : List UInt8) :
    dev.readChunks (rounds + 1) startSector (now + rest) data = (do
      ensure (now * dev.sectorSize ≤ data.length) .panic
      let nowData ← deviceError (dev.readSyncAta startSector now (now * dev.sectorSize))
      ensure (startSector + now < 2 ^ 64) .panic
      let afterward ← dev.readChunks rounds (startSector + now) rest
        (data.drop (now * dev.sectorSize))
      return nowData ++ afterward) := by
  obtain ⟨n, total, few, left⟩ := chunk.exists_succ
  rw [total, readChunks, few, left]
  exact Nat.succ_ne_zero n

/-- A round of the loop of `write_sync`. -/
theorem writeChunks_add (rounds startSector : Nat) (chunk : Chunk now rest) (data : List UInt8) :
    dev.writeChunks (rounds + 1) startSector (now + rest) data = (do
      ensure (now * dev.sectorSize ≤ data.length) .panic
      deviceError (dev.writeSyncAta startSector now (data.take (now * dev.sectorSize)))
      ensure (startSector + now < 2 ^ 64) .panic
      dev.writeChunks rounds (startSector + now) rest (data.drop (now * dev.sectorSize))) := by
  obtain ⟨n, total, few, left⟩ := chunk.exists_succ
  rw [total, writeChunks, few, left]
  exact Nat.succ_ne_zero n

/-- The data of a round, and of the rounds after it. -/
theorem length_chunk (covers : data.length = (now + rest) * dev.sectorSize) :
    now * dev.sectorSize ≤ data.length ∧
      (data.take (now * dev.sectorSize)).length = now * dev.sectorSize ∧
      (data.drop (now * dev.sectorSize)).length = rest * dev.sectorSize := by
  rw [add_mul] at covers
  rw [List.length_take, List.length_drop]
  omega

/-- The loop of `read_sync`: whatever the addresses, every chunk is read; and when they fit the
registers, it is the right one. -/
theorem readChunks_run (rounds startSector n : Nat) (enough : n ≤ rounds) :
    ∀ (data : List UInt8) (c : Channel), Ready dev c → data.length = n * dev.sectorSize →
    startSector + n < 2 ^ 64 →
    ∃ buffer c', dev.readChunks rounds startSector n data c = .ok buffer c' ∧ Ready dev c' ∧
      c'.media = c.media ∧
      c'.touched = c.touched ++ chunkSectors dev.secondDeviceSelect rounds startSector n ∧
      (Addressable startSector n →
        buffer = cellsFrom (c.media dev.secondDeviceSelect) startSector n) := by
  induction rounds, startSector, n, enough using chunks_induction with
  | none rounds startSector =>
    intro data c ready _ _
    unfold readChunks chunkSectors
    exact ⟨[], c, rfl, ready, rfl, (List.append_nil _).symm, fun _ => by simp [cellsFrom]⟩
  | round rounds startSector now rest _ _ chunk ih =>
    intro data c ready covers fits
    obtain ⟨length, -, dropped⟩ := dev.length_chunk covers
    have few := chunk.few
    obtain ⟨a, first, ready', media, touched⟩ :=
      dev.readSyncAta_run ready startSector chunk.some_ (by omega)
    obtain ⟨buffer, c', later, ready'', media', touched', reads⟩ :=
      ih _ a ready' dropped (by omega)
    refine ⟨cellsFrom (c.media dev.secondDeviceSelect) (startSector % 2 ^ 24) now ++ buffer,
      c', ?_, ready'', media'.trans media, ?_, ?_⟩
    · rw [dev.readChunks_add rounds startSector chunk data, bind_of_ok (ensure_run length _ c),
        bind_of_ok (deviceError_run first),
        bind_of_ok (ensure_run (show startSector + now < 2 ^ 64 by omega) _ a), bind_of_ok later]
      rfl
    · rw [touched', touched, chunkSectors_add _ _ _ chunk, List.append_assoc]
    · intro addressable
      obtain ⟨low, next⟩ := (addressable_iff chunk).mp addressable
      rw [reads next, media, Nat.mod_eq_of_lt low, ← cellsFrom_add]

/-- The loop of `write_sync`, likewise. -/
theorem writeChunks_run (rounds startSector n : Nat) (enough : n ≤ rounds) :
    ∀ (data : List UInt8) (c : Channel), Ready dev c → data.length = n * dev.sectorSize →
    startSector + n < 2 ^ 64 →
    ∃ c', dev.writeChunks rounds startSector n data c = .ok () c' ∧ Ready dev c' ∧
      c'.touched = c.touched ++ chunkSectors dev.secondDeviceSelect rounds startSector n ∧
      (Addressable startSector n →
        Wrote c c' dev.secondDeviceSelect (startSector * dev.sectorSize) data) := by
  induction rounds, startSector, n, enough using chunks_induction with
  | none rounds startSector =>
    intro data c ready covers _
    obtain rfl := List.length_eq_zero_iff.mp (covers.trans (zero_mul _))
    unfold writeChunks chunkSectors
    exact ⟨c, rfl, ready, (List.append_nil _).symm, fun _ => wrote_nil rfl _ _⟩
  | round rounds startSector now rest _ _ chunk ih =>
    intro data c ready covers fits
    obtain ⟨length, taken, dropped⟩ := dev.length_chunk covers
    have few := chunk.few
    obtain ⟨a, first, ready', wrote, touched⟩ :=
      dev.writeSyncAta_run ready startSector chunk.some_ (by omega) taken
    obtain ⟨c', later, ready'', touched', writes⟩ := ih _ a ready' dropped (by omega)
    refine ⟨c', ?_, ready'', ?_, ?_⟩
    · rw [dev.writeChunks_add rounds startSector chunk data, bind_of_ok (ensure_run length _ c),
        bind_of_ok (deviceError_run first),
        bind_of_ok (ensure_run (show startSector + now < 2 ^ 64 by omega) _ a)]
      exact later
    · rw [touched', touched, chunkSectors_add _ _ _ chunk, List.append_assoc]
    · intro addressable
      obtain ⟨low, next⟩ := (addressable_iff chunk).mp addressable
      have tail := writes next
      rw [Nat.mod_eq_of_lt low] at wrote
      rw [← List.take_append_drop (now * dev.sectorSize) data]
      refine wrote.append ?_
      rw [taken, ← add_mul]
      exact tail

end AtaDevice

/-! ## Whole sectors -/

theorem Medium.byte_eq_cell (k : Nat) {offset : Nat} (inside : offset < m.sectorSize) :
    m.byte k offset = m.cell (k * m.sectorSize + offset) := by
  unfold cell
  rw [mul_comm k, Nat.mul_add_div (by omega), Nat.mul_add_mod, Nat.div_eq_of_lt inside,
    Nat.mod_eq_of_lt inside, add_zero]

theorem cellsFrom_one (k : Nat) : cellsFrom m k 1 = m.sector k := by
  unfold cellsFrom Medium.sector
  rw [one_mul]
  apply List.map_congr_left
  intro offset inside
  exact (m.byte_eq_cell k (List.mem_range.mp inside)).symm

theorem length_cellsFrom (first count : Nat) :
    (cellsFrom m first count).length = count * m.sectorSize := by
  simp [cellsFrom]

/-- The sectors in a buffer. -/
theorem sector_of_cellsFrom (first : Nat) {i : Nat} (inside : i < count) :
    ((cellsFrom m first count).drop (i * m.sectorSize)).take m.sectorSize =
      m.sector (first + i) := by
  obtain ⟨rest, split⟩ : ∃ rest, count = i + (1 + rest) := ⟨count - i - 1, by omega⟩
  have length : (m.sector (first + i)).length = m.sectorSize := by simp [Medium.sector]
  rw [split, cellsFrom_add, cellsFrom_add, cellsFrom_one,
    List.drop_left' (length_cellsFrom m first i), List.take_left' length]

section
variable {second drive : Bool} {first n : Nat}
  (wrote : Wrote c c' second (first * (c.media second).sectorSize) data)
  (covers : data.length = n * (c.media second).sectorSize)
include wrote covers

theorem Wrote.sector {i : Nat} (inside : i < n) : (c'.media second).sector (first + i) =
      (data.drop (i * (c.media second).sectorSize)).take (c.media second).sectorSize := by
  have sized := wrote.sectorSize second
  have room : i * (c.media second).sectorSize + (c.media second).sectorSize ≤ data.length := by
    rw [covers, ← Nat.succ_mul]
    exact Nat.mul_le_mul_right _ inside
  apply List.ext_getElem?
  intro offset
  by_cases low : offset < (c.media second).sectorSize
  · unfold Medium.sector
    rw [List.getElem?_map, List.getElem?_range (by rw [sized]; exact low), Option.map_some,
      Medium.byte_eq_cell _ _ (by rw [sized]; exact low), wrote.cell, sized, add_mul,
      if_pos ⟨rfl, by omega, by omega⟩, List.getElem?_take_of_lt low, List.getElem?_drop]
    rw [show first * (c.media second).sectorSize + i * (c.media second).sectorSize + offset -
      first * (c.media second).sectorSize = i * (c.media second).sectorSize + offset by omega]
    rw [List.getElem?_eq_getElem (by omega)]
    rfl
  · have length : ((c'.media second).sector (first + i)).length = (c.media second).sectorSize := by
      simp only [Medium.sector, List.length_map, List.length_range, sized]
    rw [List.getElem?_eq_none (by omega),
      List.getElem?_eq_none (by simp only [List.length_take]; omega)]

theorem Wrote.sector_outside {k : Nat} (outside : drive = second → k < first ∨ first + n ≤ k) :
    (c'.media drive).sector k = (c.media drive).sector k := by
  have sized := wrote.sectorSize drive
  unfold Medium.sector
  rw [sized]
  apply List.map_congr_left
  intro offset inside
  have low := List.mem_range.mp inside
  rw [Medium.byte_eq_cell _ _ (by rw [sized]; exact low), wrote.cell, sized, if_neg,
    ← Medium.byte_eq_cell _ _ low]
  rintro ⟨rfl, above, below⟩
  rw [covers, ← add_mul] at below
  cases outside rfl with
  | inl before =>
    have := Nat.mul_le_mul_right (c.media drive).sectorSize (Nat.succ_le_of_lt before)
    rw [Nat.succ_mul] at this
    omega
  | inr after =>
    have := Nat.mul_le_mul_right (c.media drive).sectorSize after
    omega

end

namespace AtaDevice
variable (dev : AtaDevice)

/-- `read_sync` of `n` sectors keeps to the bounds of the device, and fills sector `i` of the buffer
from sector `startSector + i`, touching no other. -/
def ReadsSectors (startSector : BitVec 64) (n : Nat) (data : List UInt8) (c : Channel) : Prop :=
  (dev.numberOfSectors < startSector.toNat + n →
    dev.readSync startSector data c = .error (.err .boundsExceeded) c) ∧
  (startSector.toNat + n ≤ dev.numberOfSectors →
    ∃ buffer c', dev.readSync startSector data c = .ok buffer c' ∧ c'.media = c.media ∧
      c'.touched = c.touched ++ sectorsFrom dev.secondDeviceSelect startSector.toNat n ∧
      buffer.length = data.length ∧
      ∀ i < n, (buffer.drop (i * dev.sectorSize)).take dev.sectorSize =
        (c.media dev.secondDeviceSelect).sector (startSector.toNat + i))

/-- `write_sync` of `n` sectors keeps to the bounds of the device, and stores sector `i` of the
buffer in sector `startSector + i`, touching no other. -/
def WritesSectors (startSector : BitVec 64) (n : Nat) (data : List UInt8) (c : Channel) : Prop :=
  (dev.numberOfSectors < startSector.toNat + n →
    dev.writeSync startSector data c = .error (.err .boundsExceeded) c) ∧
  (startSector.toNat + n ≤ dev.numberOfSectors →
    ∃ c', dev.writeSync startSector data c = .ok () c' ∧
      c'.touched = c.touched ++ sectorsFrom dev.secondDeviceSelect startSector.toNat n ∧
      (∀ i < n, (c'.media dev.secondDeviceSelect).sector (startSector.toNat + i) =
        (data.drop (i * dev.sectorSize)).take dev.sectorSize) ∧
      ∀ drive k, (drive = dev.secondDeviceSelect →
          k < startSector.toNat ∨ startSector.toNat + n ≤ k) →
        (c'.media drive).sector k = (c.media drive).sector k)

/-- Which transfers the code gets right: not those that end with the last sector of the device, and
not those with a chunk that starts above the 24 bits of the registers. -/
def Transferable (startSector : BitVec 64) (n : Nat) : Prop :=
  startSector.toNat + n ≠ dev.numberOfSectors ∧
    (startSector.toNat + n < dev.numberOfSectors → Addressable startSector.toNat n)

section
variable {dev} {startSector : BitVec 64} {n : Nat} {data : List UInt8} {c : Channel}

theorem checkTransfer_stops (covers : data.length = n * dev.sectorSize)
    (beyond : dev.numberOfSectors ≤ startSector.toNat + n) :
    dev.checkTransfer startSector data.length c = .error (.err .boundsExceeded) c := by
  obtain ⟨sized, -⟩ := dev.sectorSize_spec
  have quotient : n * dev.sectorSize / dev.sectorSize = n := Nat.mul_div_cancel n (by omega)
  unfold checkTransfer
  rw [covers, bind_of_ok (ensure_run (Nat.mul_mod_left _ _) _ c)]
  by_cases fits : startSector.toNat + n * dev.sectorSize / dev.sectorSize < 2 ^ 64
  · rw [bind_of_ok (ensure_run fits _ c), bind_of_error (ensure_stop (by omega) _ c)]
  · rw [bind_of_error (ensure_stop fits _ c)]

/-- A transfer that checks its bounds is right exactly if its result is. -/
theorem transferable_iff {α : Type} {transfer : Io α} {right : α → Channel → Prop}
    (stops : dev.numberOfSectors ≤ startSector.toNat + n →
      transfer c = .error (.err .boundsExceeded) c)
    (runs : startSector.toNat + n < dev.numberOfSectors →
      ∃ a c', transfer c = .ok a c' ∧ (right a c' ↔ Addressable startSector.toNat n)) :
    ((dev.numberOfSectors < startSector.toNat + n →
        transfer c = .error (.err .boundsExceeded) c) ∧
      (startSector.toNat + n ≤ dev.numberOfSectors →
        ∃ a c', transfer c = .ok a c' ∧ right a c')) ↔ dev.Transferable startSector n := by
  by_cases beyond : dev.numberOfSectors ≤ startSector.toNat + n
  · constructor
    · rintro ⟨-, transfers⟩
      refine ⟨fun last => ?_, by omega⟩
      obtain ⟨a, c', ran, -⟩ := transfers (by omega)
      rw [stops beyond] at ran
      cases ran
    · rintro ⟨notLast, -⟩
      exact ⟨fun _ => stops beyond, by omega⟩
  · obtain ⟨a, c', ran, correct⟩ := runs (by omega)
    constructor
    · rintro ⟨-, transfers⟩
      refine ⟨by omega, fun _ => ?_⟩
      obtain ⟨a', c'', ran', right'⟩ := transfers (by omega)
      rw [ran] at ran'
      cases ran'
      exact correct.mp right'
    · rintro ⟨-, addressable⟩
      exact ⟨by omega, fun _ => ⟨a, c', ran, correct.mpr (addressable (by omega))⟩⟩

section
variable (bounded : dev.numberOfSectors ≤ 2 ^ 28)
include bounded

theorem checkTransfer_passes (covers : data.length = n * dev.sectorSize)
    (within : startSector.toNat + n < dev.numberOfSectors) :
    dev.checkTransfer startSector data.length c = .ok n c := by
  obtain ⟨sized, -⟩ := dev.sectorSize_spec
  have quotient : n * dev.sectorSize / dev.sectorSize = n := Nat.mul_div_cancel n (by omega)
  unfold checkTransfer
  rw [covers, bind_of_ok (ensure_run (Nat.mul_mod_left _ _) _ c),
    bind_of_ok (ensure_run (by omega) _ c), bind_of_ok (ensure_run (by omega) _ c)]
  show EStateM.Result.ok (n * dev.sectorSize / dev.sectorSize) c = _
  rw [quotient]

theorem readsSectors_iff (ready : Ready dev c) (covers : data.length = n * dev.sectorSize) :
    dev.ReadsSectors startSector n data c ↔ dev.Transferable startSector n := by
  refine transferable_iff (fun beyond => bind_of_error (checkTransfer_stops covers beyond))
    fun within => ?_
  obtain ⟨buffer, c', reads, -, media, touched, cells⟩ := dev.readChunks_run n
    startSector.toNat n (le_refl n) data c ready covers (by omega)
  refine ⟨buffer, c', (bind_of_ok (checkTransfer_passes bounded covers within)).trans reads, ?_⟩
  rw [touched, List.append_cancel_left_eq, chunkSectors_eq_iff _ n _ n (le_refl n)]
  refine ⟨fun right => right.2.1, fun low => ⟨media, low, ?_, fun i inside => ?_⟩⟩
  · rw [cells low, length_cellsFrom, ready.sized, covers]
  · rw [cells low, ← ready.sized]
    exact sector_of_cellsFrom _ _ inside

theorem writesSectors_iff (ready : Ready dev c) (covers : data.length = n * dev.sectorSize) :
    dev.WritesSectors startSector n data c ↔ dev.Transferable startSector n := by
  refine (and_congr_right' (imp_congr_right fun _ => (exists_const Unit).symm)).trans
    (transferable_iff (fun beyond => bind_of_error (checkTransfer_stops covers beyond))
      fun within => ?_)
  obtain ⟨c', writes, -, touched, wrote⟩ := dev.writeChunks_run n
    startSector.toNat n (le_refl n) data c ready covers (by omega)
  refine ⟨(), c', (bind_of_ok (checkTransfer_passes bounded covers within)).trans writes, ?_⟩
  rw [touched, List.append_cancel_left_eq, chunkSectors_eq_iff _ n _ n (le_refl n)]
  refine ⟨fun right => right.1, fun low => ?_⟩
  have cells := wrote low
  rw [← ready.sized] at cells covers
  refine ⟨low, fun i inside => ?_, fun drive k outside => cells.sector_outside covers outside⟩
  rw [← ready.sized]
  exact cells.sector covers inside

end

end

/-- Both directions get exactly the same transfers right. -/
theorem transfers_iff {dev : AtaDevice} (bounded : dev.numberOfSectors ≤ 2 ^ 28) {c : Channel}
    (ready : Ready dev c) (startSector : BitVec 64) (n : Nat) (data : List UInt8)
    (covers : data.length = n * dev.sectorSize) :
    (dev.ReadsSectors startSector n data c ↔ dev.Transferable startSector n) ∧
      (dev.WritesSectors startSector n data c ↔ dev.Transferable startSector n) :=
  ⟨readsSectors_iff bounded ready covers, writesSectors_iff bounded ready covers⟩

/-- A device with sectors of 512 bytes. -/
def plainDevice (numberOfSectors : Nat) : AtaDevice where
  numberOfSectors := numberOfSectors
  sectorSize := 512
  secondDeviceSelect := false
  identified := ⟨⟨0, 0⟩, by decide⟩

/-- A channel that is idle and always ready. -/
def plainChannel : Channel where
  features := 0
  sectorCount := 0
  lbaLo := 0
  lbaMid := 0
  lbaHi := 0
  drive := 0
  error := 0
  failed := false
  transfer := none
  busy := 0
  latency := fun _ => 0
  fault := fun _ => none
  actions := 0
  media := fun _ => ⟨512, fun _ _ => 0⟩
  touched := []

theorem ready_plainChannel (numberOfSectors : Nat) :
    Ready (plainDevice numberOfSectors) plainChannel := ⟨rfl, fun _ => rfl, rfl⟩

/-- A transfer in two chunks. -/
theorem two_chunks_transfer :
    (plainDevice 400).ReadsSectors 1 300 (List.replicate (300 * 512) 7) plainChannel ∧
      (plainDevice 400).WritesSectors 1 300 (List.replicate (300 * 512) 7) plainChannel := by
  have covers : (List.replicate (300 * 512) (7 : UInt8)).length =
      300 * (plainDevice 400).sectorSize := List.length_replicate
  have bounded : (plainDevice 400).numberOfSectors ≤ 2 ^ 28 := by decide
  have transferable : (plainDevice 400).Transferable 1 300 := by
    refine ⟨by decide, fun _ k inside => ?_⟩
    show 1 + 255 * k < 2 ^ 24
    omega
  obtain ⟨reads, writes⟩ := transfers_iff bounded (ready_plainChannel 400) 1 300 _ covers
  exact ⟨reads.mpr transferable, writes.mpr transferable⟩

/-- The last sector of a device cannot be read; and sector 2^24 of a larger device is taken from
sector 0. -/
theorem last_and_high_sectors_fail :
    (plainDevice 4).readSync 3 (List.replicate 512 0) plainChannel =
        .error (.err .boundsExceeded) plainChannel ∧
      ∃ buffer c', (plainDevice (2 ^ 25)).readSync (BitVec.ofNat 64 (2 ^ 24))
          (List.replicate 512 0) plainChannel = .ok buffer c' ∧ c'.touched = [(false, 0)] := by
  have covers : (List.replicate 512 (0 : UInt8)).length = 1 * 512 := by
    rw [List.length_replicate]
  constructor
  · exact bind_of_error (checkTransfer_stops covers (by decide))
  · obtain ⟨buffer, c', reads, -, -, touched, -⟩ := (plainDevice (2 ^ 25)).readChunks_run 1 (2 ^ 24)
      1 (le_refl 1) _ plainChannel (ready_plainChannel _) covers (by decide)
    refine ⟨buffer, c', ?_, touched.trans (by decide)⟩
    exact (bind_of_ok (checkTransfer_passes (by decide) covers (by decide))).trans reads

end AtaDevice

end Emerald.Devices.Ide
