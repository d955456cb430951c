
import Emerald.Devices.Ide

/-!
# One ATA command

What a command does on a device that carries it out: the waiting loops end, every word of the data
goes through the port once and in order, and the bytes are those of the sectors from the address in
the registers on. The registers get the low 24 bits of that address.
-/

namespace Emerald.Devices.Ide
variable {t : Transfer} {count origin : Nat}
variable {c c' : Channel} {data : List UInt8} {second : Bool} {check : Prop} {ε : Type}

/-! ## Words -/

section
variable (low high : UInt8)

theorem getLsbD_ones {i : Nat} (below : i < 8) : (255#8).getLsbD i = true := by
  have ones : 255#8 = BitVec.allOnes 8 := rfl
  rw [ones, BitVec.getLsbD_allOnes]
  exact decide_eq_true below

theorem low_of_word : ((low.toUInt16 ||| (high.toUInt16 <<< 8)) &&& 0xFF).toUInt8 = low := by
  apply UInt8.toBitVec_inj.mp
  apply BitVec.eq_of_getLsbD_eq
  intro i below
  simp [getLsbD_ones below]

theorem high_of_word :
    ((low.toUInt16 ||| (high.toUInt16 <<< 8)) >>> 8 &&& 0xFF).toUInt8 = high := by
  apply UInt8.toBitVec_inj.mp
  apply BitVec.eq_of_getLsbD_eq
  intro i below
  have above : ¬ 8 + i < 8 := by omega
  have word : 8 + i < 16 := by omega
  simp [getLsbD_ones below, below, above, word]

end

/-! ## The size of a sector -/

theorem CommandIdentifyDataRaw.sectorSize_spec {identify : CommandIdentifyDataRaw} {size : Nat}
    (known : identify.sectorSize = some size) : 512 ≤ size ∧ size % 2 = 0 := by
  unfold sectorSize at known
  split at known
  · split at known
    · cases known
      omega
    · cases known
  · cases known
    decide

theorem AtaDevice.sectorSize_spec (dev : AtaDevice) :
    512 ≤ dev.sectorSize ∧ dev.sectorSize % 2 = 0 := by
  obtain ⟨identify, known⟩ := dev.identified
  exact identify.sectorSize_spec known

/-! ## The device by linear addresses -/

/-- The byte at an address counted over all the sectors. -/
def Medium.cell (m : Medium) (address : Nat) : UInt8 :=
  m.byte (address / m.sectorSize) (address % m.sectorSize)

/-- A sector as a whole. -/
def Medium.sector (m : Medium) (k : Nat) : List UInt8 := (List.range m.sectorSize).map (m.byte k)

namespace Channel
variable {c c' : Channel}

/-- The first address of a transfer. -/
def base (c : Channel) (t : Transfer) : Nat := t.lba * (c.media t.second).sectorSize

theorem byteAt_eq (t : Transfer) (sized : 0 < (c.media t.second).sectorSize) (pos : Nat) :
    c.byteAt t pos = (c.media t.second).cell (c.base t + pos) := by
  unfold byteAt Medium.cell base
  rw [mul_comm t.lba, Nat.mul_add_div sized, Nat.mul_add_mod]

theorem sectorSize_setByte (t : Transfer) (pos : Nat) (value : UInt8) (second : Bool) :
    ((c.setByte t pos value).media second).sectorSize = (c.media second).sectorSize := by
  by_cases same : second = t.second
  · subst same
    simp [setByte]
  · simp [setByte, same]

theorem cell_setByte (t : Transfer) (sized : 0 < (c.media t.second).sectorSize) (pos : Nat)
    (value : UInt8) (second : Bool) (address : Nat) :
    ((c.setByte t pos value).media second).cell address =
      if second = t.second ∧ address = c.base t + pos then value
      else (c.media second).cell address := by
  by_cases same : second = t.second
  · subst same
    have quotient : (c.base t + pos) / (c.media t.second).sectorSize =
        t.lba + pos / (c.media t.second).sectorSize := by
      unfold base
      rw [mul_comm t.lba, Nat.mul_add_div sized]
    have remainder : (c.base t + pos) % (c.media t.second).sectorSize =
        pos % (c.media t.second).sectorSize := by
      unfold base
      rw [mul_comm t.lba, Nat.mul_add_mod]
    by_cases here : address = c.base t + pos
    · subst here
      simp [Medium.cell, setByte, quotient, remainder]
    · rw [if_neg (fun both => here both.2)]
      simp only [Medium.cell, setByte, Function.update_self]
      by_cases sector : address / (c.media t.second).sectorSize =
          t.lba + pos / (c.media t.second).sectorSize
      · have offset : address % (c.media t.second).sectorSize ≠
            pos % (c.media t.second).sectorSize := by
          intro equal
          apply here
          rw [← Nat.div_add_mod address (c.media t.second).sectorSize, sector, equal,
            ← quotient, ← remainder, Nat.div_add_mod]
        rw [sector, Function.update_self, Function.update_of_ne offset]
      · rw [Function.update_of_ne sector]
  · rw [if_neg (fun both => same both.1)]
    simp only [setByte, Function.update_of_ne same]

/-- What a transfer does not change: the log, the faults, and the shape of the drives. -/
structure Kept (c c' : Channel) : Prop where
  touched : c'.touched = c.touched
  fault : c'.fault = c.fault
  failed : c'.failed = c.failed
  sectorSize : ∀ second, (c'.media second).sectorSize = (c.media second).sectorSize

theorem Kept.trans {c'' : Channel} (first : Kept c c') (second : Kept c' c'') : Kept c c'' :=
  ⟨second.touched.trans first.touched, second.fault.trans first.fault,
    second.failed.trans first.failed, fun b => (second.sectorSize b).trans (first.sectorSize b)⟩

/-- The device when it is no longer busy. -/
def free (c : Channel) : Channel := { c with busy := 0 }

theorem kept_free (c : Channel) : Kept c c.free := ⟨rfl, rfl, rfl, fun _ => rfl⟩

theorem kept_setByte (c : Channel) (t : Transfer) (pos : Nat) (value : UInt8) :
    Kept c (c.setByte t pos value) := ⟨rfl, rfl, rfl, sectorSize_setByte t pos value⟩

theorem advance_media (t : Transfer) : (c.advance t).media = c.media := by
  unfold advance act
  dsimp only
  split <;> rfl

theorem advance_transfer (t : Transfer) : (c.advance t).transfer =
    if t.done + 2 = t.count * (c.media t.second).sectorSize then none
    else some { t with done := t.done + 2 } := by
  unfold advance act
  dsimp only
  split <;> rfl

theorem kept_advance (c : Channel) (t : Transfer) : Kept c (c.advance t) := by
  refine ⟨?_, ?_, ?_, fun b => by rw [advance_media]⟩
  all_goals
    unfold advance act
    dsimp only
    split <;> rfl

/-! ## The status -/

theorem status_busy (c : Channel) : (c.status &&& statusBusy != 0) = decide (c.busy ≠ 0) := by
  unfold status
  by_cases busy : c.busy = 0
  · rw [if_neg (by simpa using busy), decide_eq_false (by simpa using busy)]
    cases c.transfer.isSome <;> cases c.failed <;> decide
  · rw [if_pos busy, decide_eq_true busy]
    decide

theorem status_err (sound : c.failed = false) : (c.status &&& statusErr != 0) = false := by
  unfold status
  rw [sound]
  split
  · decide
  · cases c.transfer.isSome <;> decide

theorem status_dataRequest (free : c.busy = 0) :
    (c.status &&& statusDataRequest != 0) = c.transfer.isSome := by
  unfold status
  rw [if_neg (by simpa using free)]
  cases c.transfer.isSome <;> cases c.failed <;> decide

theorem status_ready (free : c.busy = 0) (idle : c.transfer = none) :
    (c.status &&& (statusBusy ||| statusDataRequest) != 0) = false := by
  unfold status
  rw [if_neg (by simpa using free), idle]
  cases c.failed <;> decide

end Channel

open Channel

theorem readStatus_run (c : Channel) :
    readStatus c = .ok c.status { c with busy := c.busy - 1 } := rfl

theorem waitLoop_run (rounds : Nat) (c : Channel) (enough : c.busy < rounds) :
    waitLoop rounds c = .ok () c.free := by
  induction rounds generalizing c with
  | zero => omega
  | succ rounds ih =>
    unfold waitLoop
    rw [bind_of_ok (readStatus_run c), status_busy]
    by_cases busy : c.busy = 0
    · simp only [busy]
      rfl
    · simp only [busy, ne_eq]
      exact ih _ (by show c.busy - 1 < rounds; omega)

theorem waitUntilFree_run (c : Channel) : waitUntilFree c = .ok () c.free :=
  waitLoop_run (c.busy + 1) c (Nat.lt_succ_self _)

theorem waitUntilCanCommand_run (idle : c.transfer = none) :
    waitUntilCanCommand c = .ok () c.free := by
  have ready : (c.free.status &&& (statusBusy ||| statusDataRequest) != 0) = false :=
    status_ready rfl idle
  unfold waitUntilCanCommand
  rw [bind_of_ok (waitUntilFree_run c), get_bind]
  unfold canCommandLoop
  rw [bind_of_ok (readStatus_run c.free), ready]
  rfl

theorem waitEvery_run (i : Nat) (c : Channel) :
    ∃ c', waitEvery i c = .ok () c' ∧ (c' = c ∨ c' = c.free) := by
  unfold waitEvery
  split
  · exact ⟨c.free, waitUntilFree_run c, .inr rfl⟩
  · exact ⟨c, rfl, .inl rfl⟩

theorem ensure_run [Decidable check] (holds : check) (stop : Stop ε)
    (c : Channel) : ensure check stop c = .ok () c := by
  unfold ensure
  rw [if_pos holds]
  rfl

theorem ensure_stop [Decidable check] (fails : ¬ check)
    (stop : Stop ε) (c : Channel) : ensure check stop c = .error stop c := by
  unfold ensure
  rw [if_neg fails]
  rfl

/-! ## The data port -/

/-- The channel is in the middle of a transfer, at a word. -/
structure Serving (c : Channel) (t : Transfer) : Prop where
  transfer : c.transfer = some t
  sized : 0 < (c.media t.second).sectorSize

theorem Serving.waited (serving : Serving c t) (waited : c' = c ∨ c' = c.free) :
    Serving c' t ∧ Kept c c' ∧ c'.media = c.media ∧ c'.base t = c.base t := by
  cases waited with
  | inl same =>
    rw [same]
    exact ⟨serving, ⟨rfl, rfl, rfl, fun _ => rfl⟩, rfl, rfl⟩
  | inr free =>
    rw [free]
    exact ⟨⟨serving.transfer, serving.sized⟩, kept_free c, rfl, rfl⟩

theorem readData_run (serving : Serving c t) : readData c = .ok ((c.byteAt t t.done).toUInt16 |||
      ((c.byteAt t (t.done + 1)).toUInt16 <<< 8)) (c.advance t) := by
  unfold readData
  rw [get_bind, serving.transfer]
  rfl

/-- What is left of a transfer after a word. -/
theorem advance_serving (serving : Serving c t) {words : Nat}
    (rest : t.done + 2 * (words + 1) = t.count * (c.media t.second).sectorSize) :
    (words = 0 → (c.advance t).transfer = none) ∧
      (words ≠ 0 → Serving (c.advance t) { t with done := t.done + 2 }) := by
  constructor
  · intro last
    rw [advance_transfer, if_pos (by omega)]
  · intro more
    refine ⟨?_, ?_⟩
    · rw [advance_transfer, if_neg (by omega)]
    · rw [advance_media]
      exact serving.sized

/-- Reading all that is left of a transfer. -/
theorem readWords_run (words : Nat) : ∀ (i : Nat) (c : Channel) (t : Transfer),
    (words ≠ 0 → Serving c t) → (words = 0 → c.transfer = none) →
    t.done + 2 * words = t.count * (c.media t.second).sectorSize →
    ∃ c', readWords i words c = .ok ((List.range (2 * words)).map fun k =>
        (c.media t.second).cell (c.base t + t.done + k)) c' ∧
      c'.transfer = none ∧ c'.media = c.media ∧ Kept c c' := by
  induction words with
  | zero =>
    intro i c t _ finished _
    exact ⟨c, rfl, finished rfl, rfl, rfl, rfl, rfl, fun _ => rfl⟩
  | succ words ih =>
    intro i c t serving _ rest
    obtain ⟨a, waits, waited⟩ := waitEvery_run i c
    obtain ⟨serving', kept, media, base⟩ := (serving (Nat.succ_ne_zero _)).waited waited
    have read := readData_run serving'
    rw [byteAt_eq t serving'.sized, byteAt_eq t serving'.sized, base] at read
    have rest' : t.done + 2 * (words + 1) = t.count * (a.media t.second).sectorSize := by
      rw [media]
      exact rest
    obtain ⟨last, more⟩ := advance_serving serving' rest'
    obtain ⟨c', reads, idle, media', kept'⟩ := ih (i + 1) (a.advance t)
      { t with done := t.done + 2 } more last (by
        rw [advance_media, media, ← rest]
        show t.done + 2 + 2 * words = _
        omega)
    refine ⟨c', ?_, idle, ?_, kept.trans ((kept_advance a t).trans kept')⟩
    · unfold readWords
      rw [bind_of_ok waits, bind_of_ok read, bind_of_ok reads]
      have next : (a.advance t).base { t with done := t.done + 2 } = c.base t := by
        unfold Channel.base
        rw [advance_media, media]
      rw [low_of_word, high_of_word, next, advance_media, media]
      show EStateM.Result.ok _ _ = _
      congr 1
      rw [show 2 * (words + 1) = 2 * words + 1 + 1 from rfl, List.range_succ_eq_map,
        List.range_succ_eq_map]
      simp only [List.map_cons, List.map_map, List.cons.injEq]
      refine ⟨rfl, ?_, ?_⟩
      · congr 1
      · apply List.map_congr_left
        intro k _
        show Medium.cell _ (c.base t + (t.done + 2) + k) = _
        congr 1
        simp only [Function.comp]
        omega
    · rw [media', advance_media, media]

/-- The bytes from an address on are now the given ones, and no others have changed. -/
structure Wrote (c c' : Channel) (second : Bool) (origin : Nat) (data : List UInt8) : Prop where
  sectorSize : ∀ drive, (c'.media drive).sectorSize = (c.media drive).sectorSize
  cell : ∀ drive address, (c'.media drive).cell address =
    if drive = second ∧ origin ≤ address ∧ address < origin + data.length then
      (data[address - origin]?).getD 0
    else (c.media drive).cell address

theorem wrote_nil (same : c'.media = c.media) (second : Bool) (origin : Nat) :
    Wrote c c' second origin [] := by
  refine ⟨fun drive => by rw [same], fun drive address => ?_⟩
  rw [same, if_neg (by rintro ⟨-, below, above⟩; rw [List.length_nil] at above; omega)]

theorem Wrote.append {c'' : Channel} {first rest : List UInt8}
    (wrote : Wrote c c' second origin first)
    (next : Wrote c' c'' second (origin + first.length) rest) :
    Wrote c c'' second origin (first ++ rest) := by
  refine ⟨fun drive => (next.sectorSize drive).trans (wrote.sectorSize drive),
    fun drive address => ?_⟩
  rw [next.cell drive address, wrote.cell drive address, List.length_append]
  by_cases here : drive = second
  · by_cases early : address < origin + first.length
    · rw [if_neg (by omega)]
      by_cases inside : origin ≤ address
      · rw [if_pos ⟨here, inside, early⟩, if_pos ⟨here, inside, by omega⟩,
          List.getElem?_append_left (by omega)]
      · rw [if_neg (by omega), if_neg (by omega)]
    · by_cases late : address < origin + (first.length + rest.length)
      · rw [if_pos ⟨here, by omega, by omega⟩, if_pos ⟨here, by omega, late⟩,
          List.getElem?_append_right (by omega)]
        congr 2
        omega
      · rw [if_neg (by omega), if_neg (by omega), if_neg (by omega)]
  · rw [if_neg (fun both => here both.1), if_neg (fun both => here both.1),
      if_neg (fun both => here both.1)]

/-- One word through the data port. -/
theorem writeData_run (serving : Serving c t) (low high : UInt8) :
    ∃ c', writeData (low.toUInt16 ||| (high.toUInt16 <<< 8)) c = .ok () (c'.advance t) ∧
      Serving c' t ∧ Kept c c' ∧ Wrote c c' t.second (c.base t + t.done) [low, high] := by
  refine ⟨(c.setByte t t.done low).setByte t (t.done + 1) high, ?_, ?_, ?_, ?_⟩
  · show EStateM.Result.ok () _ = _
    simp only [serving.transfer, low_of_word, high_of_word]
  · refine ⟨serving.transfer, ?_⟩
    rw [sectorSize_setByte, sectorSize_setByte]
    exact serving.sized
  · exact (kept_setByte c t _ _).trans (kept_setByte _ t _ _)
  · have sized : 0 < ((c.setByte t t.done low).media t.second).sectorSize := by
      rw [sectorSize_setByte]
      exact serving.sized
    have base : (c.setByte t t.done low).base t = c.base t := by
      unfold Channel.base
      rw [sectorSize_setByte]
    refine ⟨fun drive => by rw [sectorSize_setByte, sectorSize_setByte], fun drive address => ?_⟩
    rw [cell_setByte t sized, cell_setByte t serving.sized, base]
    by_cases here : drive = t.second
    · by_cases second : address = c.base t + (t.done + 1)
      · rw [if_pos ⟨here, second⟩, if_pos ⟨here, by omega, by simp only [List.length]; omega⟩,
          show address - (c.base t + t.done) = 1 by omega]
        rfl
      · by_cases first : address = c.base t + t.done
        · rw [if_neg (fun both => second both.2), if_pos ⟨here, first⟩,
            if_pos ⟨here, by omega, by simp only [List.length]; omega⟩,
            show address - (c.base t + t.done) = 0 by omega]
          rfl
        · rw [if_neg (fun both => second both.2), if_neg (fun both => first both.2), if_neg]
          rintro ⟨-, below, above⟩
          simp only [List.length] at above
          omega
    · rw [if_neg (fun both => here both.1), if_neg (fun both => here both.1),
        if_neg (fun both => here both.1)]

theorem wrote_frame {a b : Channel} (before : a.media = c.media) (after : c'.media = b.media)
    (wrote : Wrote a b second origin data) : Wrote c c' second origin data := by
  constructor
  · intro drive
    rw [after, ← before]
    exact wrote.sectorSize drive
  · intro drive address
    rw [after, ← before]
    exact wrote.cell drive address

/-- Writing all that is left of a transfer. -/
theorem writeWords_run (words : Nat) : ∀ (i : Nat) (data : List UInt8) (c : Channel) (t : Transfer),
    data.length = 2 * words → (words ≠ 0 → Serving c t) → (words = 0 → c.transfer = none) →
    t.done + 2 * words = t.count * (c.media t.second).sectorSize →
    ∃ c', writeWords i data c = .ok () c' ∧ c'.transfer = none ∧ Kept c c' ∧
      Wrote c c' t.second (c.base t + t.done) data := by
  induction words with
  | zero =>
    intro i data c t length _ finished _
    obtain rfl := List.length_eq_zero_iff.mp length
    exact ⟨c, rfl, finished rfl, ⟨rfl, rfl, rfl, fun _ => rfl⟩, wrote_nil rfl _ _⟩
  | succ words ih =>
    intro i data c t length serving _ rest
    match data, length with
    | low :: high :: tail, length =>
      have tailLength : tail.length = 2 * words := by
        simp only [List.length_cons] at length
        omega
      obtain ⟨a, waits, waited⟩ := waitEvery_run i c
      obtain ⟨serving', kept, media, base⟩ := (serving (Nat.succ_ne_zero _)).waited waited
      obtain ⟨b, writes, serving'', kept', wrote⟩ := writeData_run serving' low high
      have size : (b.media t.second).sectorSize = (c.media t.second).sectorSize := by
        rw [kept'.sectorSize, kept.sectorSize]
      obtain ⟨last, more⟩ := advance_serving serving'' (by rw [size]; exact rest)
      obtain ⟨c', tailWrites, idle, kept'', tailWrote⟩ := ih (i + 1) tail (b.advance t)
        { t with done := t.done + 2 } tailLength more last
        (by rw [advance_media, size, ← rest]; show t.done + 2 + 2 * words = _; omega)
      have next : (b.advance t).base { t with done := t.done + 2 } = c.base t := by
        unfold Channel.base
        rw [advance_media, size]
      refine ⟨c', ?_, idle, kept.trans (kept'.trans ((kept_advance b t).trans kept'')), ?_⟩
      · unfold writeWords
        rw [bind_of_ok waits, bind_of_ok writes]
        exact tailWrites
      · rw [next] at tailWrote
        rw [base] at wrote
        have word : Wrote c (b.advance t) t.second (c.base t + t.done) [low, high] :=
          wrote_frame media (advance_media t) wrote
        exact word.append tailWrote

/-! ## Commands -/

theorem checkError_run (sound : c.failed = false) :
    checkError c = .ok () { c with busy := c.busy - 1 } := by
  unfold checkError
  rw [bind_of_ok (readStatus_run c), status_err sound]
  rfl

theorem checkNoDataRequest_run (idle : c.transfer = none) :
    checkNoDataRequest c = .ok () c.free := by
  have clear : c.free.status &&& statusDataRequest = 0 := by
    have request := status_dataRequest (show c.free.busy = 0 from rfl)
    rw [show c.free.transfer = none from idle] at request
    simpa using request
  unfold checkNoDataRequest
  rw [bind_of_ok (waitUntilFree_run c)]
  exact ensure_run clear _ _

/-- The registers of a command before the command itself is written. -/
def Channel.loaded (c : Channel) (cmd : AtaCommand) : Channel :=
  { c with
    features := cmd.features
    sectorCount := cmd.sectorCount
    lbaLo := UInt8.ofNat (cmd.lba % 2 ^ 8)
    lbaMid := UInt8.ofNat (cmd.lba / 2 ^ 8 % 2 ^ 8)
    lbaHi := UInt8.ofNat (cmd.lba / 2 ^ 16 % 2 ^ 8)
    drive := cmd.drive }

theorem AtaCommand.write_run (cmd : AtaCommand) (c : Channel) :
    cmd.write c = .ok () ((c.loaded cmd).start cmd.command) := rfl

/-- A command of a transfer. -/
def sectorsCommand (command : UInt8) (startSector count : Nat) (second : Bool) : AtaCommand :=
  (AtaCommand.new command).withLba startSector |>.withSectorCount (UInt8.ofNat count)
    |>.withSecondDrive second

theorem sectorsCommand_fields (command : UInt8) (startSector count : Nat) (second : Bool) :
    (sectorsCommand command startSector count second).command = command ∧
      (sectorsCommand command startSector count second).lba = startSector ∧
      (sectorsCommand command startSector count second).sectorCount = UInt8.ofNat count ∧
      (sectorsCommand command startSector count second).drive =
        if second then 0x50 else 0x40 := by
  cases second with
  | false =>
    refine ⟨rfl, rfl, rfl, ?_⟩
    show (0x40 &&& ~~~0x10 : UInt8) = 0x40
    decide
  | true =>
    refine ⟨rfl, rfl, rfl, ?_⟩
    show (0x40 ||| 0x10 : UInt8) = 0x50
    decide

/-- The address the device sees has only the low 24 bits of the sector: the drive register never
gets the other four. -/
theorem lba_loaded (c : Channel) (command : UInt8) (startSector count : Nat) (second : Bool) :
    (c.loaded (sectorsCommand command startSector count second)).lba = startSector % 2 ^ 24 := by
  obtain ⟨-, lba, -, drive⟩ := sectorsCommand_fields command startSector count second
  have nibble : ((if second then 0x50 else 0x40 : UInt8) &&& 0xF).toNat = 0 := by
    cases second <;> decide
  simp only [Channel.lba, Channel.loaded, drive, UInt8.toNat_ofNat']
  omega

theorem second_loaded (c : Channel) (command : UInt8) (startSector count : Nat) (second : Bool) :
    (c.loaded (sectorsCommand command startSector count second)).second = second := by
  obtain ⟨-, -, -, drive⟩ := sectorsCommand_fields command startSector count second
  simp only [Channel.second, Channel.loaded, drive]
  cases second <;> decide

theorem count_loaded (c : Channel) (command : UInt8) (startSector : Nat) (some_ : 0 < count)
    (few : count ≤ 255) (second : Bool) :
    (c.loaded (sectorsCommand command startSector count second)).count = count := by
  obtain ⟨-, -, sectors, -⟩ := sectorsCommand_fields command startSector count second
  have value : (UInt8.ofNat count).toNat = count := by
    rw [UInt8.toNat_ofNat']
    omega
  have nonzero : UInt8.ofNat count ≠ 0 := by
    intro zero
    rw [zero] at value
    simp at value
    omega
  simp only [Channel.count, Channel.loaded, sectors, nonzero, if_false, value]

/-- Consecutive sectors of a drive. -/
def sectorsFrom (second : Bool) (first count : Nat) : List (Bool × Nat) :=
  (List.range count).map fun i => (second, first + i)

/-- The device is idle, carries out every command, and has the sectors the driver takes it to
have. -/
structure Ready (dev : AtaDevice) (c : Channel) : Prop where
  idle : c.transfer = none
  faultless : ∀ k, c.fault k = none
  sized : (c.media dev.secondDeviceSelect).sectorSize = dev.sectorSize

/-- The device takes a command: the data is next, from the first byte of the first sector on, and
when all of it is through the device is ready again. -/
theorem command_run {dev : AtaDevice} (ready : Ready dev c) {command : UInt8}
    (known : command = commandReadSectors ∨ command = commandWriteSectors) (startSector : Nat)
    (some_ : 0 < count) (few : count ≤ 255) :
    ∃ a t, (∀ {α : Type} (io : IdeIo α), (do
        waitUntilCanCommand
        (sectorsCommand command startSector count dev.secondDeviceSelect).write
        checkError
        io) c = io a) ∧
      Serving a t ∧ a.media = c.media ∧ t.second = dev.secondDeviceSelect ∧ t.done = 0 ∧
      a.base t = startSector % 2 ^ 24 * dev.sectorSize ∧
      t.count * (a.media t.second).sectorSize = count * dev.sectorSize ∧
      ∀ b, Kept a b → b.transfer = none → Ready dev b.free ∧ b.free.touched = c.touched ++
        sectorsFrom dev.secondDeviceSelect (startSector % 2 ^ 24) count := by
  obtain ⟨sized, -⟩ := dev.sectorSize_spec
  have faultless : (c.free.loaded (sectorsCommand command startSector count
      dev.secondDeviceSelect)).fault c.actions = none := ready.faultless _
  have started := AtaCommand.write_run
    (sectorsCommand command startSector count dev.secondDeviceSelect) c.free
  rw [(sectorsCommand_fields command startSector count dev.secondDeviceSelect).1] at started
  unfold Channel.start at started
  rw [if_pos known] at started
  simp only [lba_loaded, second_loaded, count_loaded c.free command startSector some_ few]
    at started
  split at started
  · rename_i error faulty
    exact absurd (faultless.symm.trans faulty) (Option.some_ne_none _).symm
  · refine ⟨_, ⟨command = commandWriteSectors, dev.secondDeviceSelect, startSector % 2 ^ 24, count,
      0⟩, fun io => (bind_of_ok (waitUntilCanCommand_run ready.idle)).trans
        ((bind_of_ok started).trans (bind_of_ok (checkError_run rfl))),
      ⟨rfl, ?_⟩, rfl, rfl, rfl, ?_, ?_, fun b kept idle => ⟨⟨idle, ?_, ?_⟩, ?_⟩⟩
    · show 0 < (c.media dev.secondDeviceSelect).sectorSize
      rw [ready.sized]
      omega
    · exact congrArg (startSector % 2 ^ 24 * ·) ready.sized
    · exact congrArg (count * ·) ready.sized
    · intro k
      exact (congrFun kept.fault k).trans (ready.faultless k)
    · exact (kept.sectorSize _).trans ready.sized
    · exact kept.touched

/-- The bytes of consecutive sectors, in a row. -/
def cellsFrom (m : Medium) (first count : Nat) : List UInt8 :=
  (List.range (count * m.sectorSize)).map fun k => m.cell (first * m.sectorSize + k)

/-- One chunk of `read_sync`. -/
theorem AtaDevice.readSyncAta_run (dev : AtaDevice) (ready : Ready dev c)
    (startSector : Nat) (some_ : 0 < count) (few : count ≤ 255) :
    ∃ c', dev.readSyncAta startSector count (count * dev.sectorSize) c =
        .ok (cellsFrom (c.media dev.secondDeviceSelect) (startSector % 2 ^ 24) count) c' ∧
      Ready dev c' ∧ c'.media = c.media ∧ c'.touched = c.touched ++
        sectorsFrom dev.secondDeviceSelect (startSector % 2 ^ 24) count := by
  obtain ⟨sized, even⟩ := dev.sectorSize_spec
  have evenLen : count * dev.sectorSize % 2 = 0 := by
    rw [Nat.mul_mod, even, Nat.mul_zero]
  obtain ⟨a, t, started, serving, media, second, zero, base, size, finished⟩ :=
    command_run ready (.inl rfl) startSector some_ few
  have words : count * dev.sectorSize / 2 ≠ 0 := by
    have := Nat.mul_le_mul some_ sized
    omega
  obtain ⟨b, reads, idle, media', kept⟩ := readWords_run (count * dev.sectorSize / 2) 0 a t
    (fun _ => serving) (fun none => absurd none words) (by omega)
  obtain ⟨ready', touched⟩ := finished b kept idle
  refine ⟨b.free, ?_, ready', media'.trans media, touched⟩
  unfold readSyncAta
  rw [bind_of_ok (ensure_run few _ c)]
  unfold AtaCommand.executeRead
  rw [bind_of_ok (ensure_run evenLen _ c)]
  refine (started _).trans ?_
  rw [bind_of_ok reads, bind_of_ok (checkNoDataRequest_run idle)]
  show EStateM.Result.ok _ _ = _
  rw [zero, base, media, second,
    show 2 * (count * dev.sectorSize / 2) = count * dev.sectorSize by omega, ← ready.sized]
  rfl

/-- One chunk of `write_sync`. -/
theorem AtaDevice.writeSyncAta_run (dev : AtaDevice) (ready : Ready dev c)
    (startSector : Nat) (some_ : 0 < count) (few : count ≤ 255)
    (covers : data.length = count * dev.sectorSize) :
    ∃ c', dev.writeSyncAta startSector count data c = .ok () c' ∧ Ready dev c' ∧
      Wrote c c' dev.secondDeviceSelect (startSector % 2 ^ 24 * dev.sectorSize) data ∧
      c'.touched = c.touched ++
        sectorsFrom dev.secondDeviceSelect (startSector % 2 ^ 24) count := by
  obtain ⟨sized, even⟩ := dev.sectorSize_spec
  have evenLen : data.length % 2 = 0 := by
    rw [covers, Nat.mul_mod, even, Nat.mul_zero]
  obtain ⟨a, t, started, serving, media, second, zero, base, size, finished⟩ :=
    command_run ready (.inr rfl) startSector some_ few
  have words : data.length / 2 ≠ 0 := by
    have := Nat.mul_le_mul some_ sized
    omega
  obtain ⟨b, writes, idle, kept, wrote⟩ := writeWords_run (data.length / 2) 0 data a t (by omega)
    (fun _ => serving) (fun none => absurd none words) (by rw [size]; omega)
  obtain ⟨ready', touched⟩ := finished b kept idle
  rw [base, zero, second] at wrote
  refine ⟨b.free, ?_, ready', wrote_frame (b := b) media rfl wrote, touched⟩
  unfold writeSyncAta
  rw [bind_of_ok (ensure_run few _ c)]
  unfold AtaCommand.executeWrite
  rw [bind_of_ok (ensure_run evenLen _ c)]
  refine (started _).trans ?_
  rw [bind_of_ok writes]
  exact checkNoDataRequest_run idle

end Emerald.Devices.Ide
