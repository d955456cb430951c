
import Emerald.Fs.Fat.Proofs.DirectorySlots
import Emerald.Fs.Fat.Proofs.FaultyAccesses

/-!
# Directories on a device that works

While no access is refused, the iterator over a directory and the disk under it have one content:
the current sector is what the iterator holds, which may have been changed, and the other sectors
are what is on the disk. Going on through the directory keeps this content. A sector that has been
changed is written when the iterator leaves it.
-/

namespace Emerald.Fs
variable {fs : FatFilesystem} {data : List UInt8}

/-- What is in each sector. -/
abbrev Content := Nat → List UInt8

/-- The slots of the sectors, one after another. -/
def Content.slots (content : Content) (sectors : List Nat) : List Slot :=
  sectors.flatMap fun sector => slotsOf sector (content sector)

/-- The iterator and the disk have this content, and no access will be refused. -/
structure Shows (s : DirSession) (content : Content) : Prop where
  working : s.fs.disk.faultIn = none
  length : s.iter.currentSector.length = s.fs.bootSector.bytesPerSector
  held : s.iter.currentSector = content s.iter.currentSectorIndex
  stored : ∀ sector, sector ≠ s.iter.currentSectorIndex ∨ s.iter.currentSectorDirty = false →
    s.fs.sectorBytes sector = content sector

/-! ## Reading and writing one sector -/

theorem readSectorsNoCache_working (working : fs.disk.faultIn = none)
    (sector : Nat) : readSectorsNoCache sector 1 fs = .ok (fs.sectorBytes sector) fs := by
  rw [readSectorsNoCache_healthy working fs.bootSector.sector_fits, mul_one]
  rfl

theorem writeSectors_working (working : fs.disk.faultIn = none) (sector : Nat)
    (whole : data.length = fs.bootSector.bytesPerSector) :
    writeSectors sector data fs = .ok () (fs.storeSectors sector data) := by
  rw [(accesses_writeSector whole).healthy working]
  exact congrArg (EStateM.Result.ok ()) (withFaultIn_healthy working)

/-- A sector that is written does not reach into the others. -/
theorem sectorBytes_storeSectors (fs : FatFilesystem) {sector : Nat}
    (whole : data.length = fs.bootSector.bytesPerSector) (other : Nat) :
    (fs.storeSectors sector data).sectorBytes other =
      if other = sector then data else fs.sectorBytes other := by
  unfold FatFilesystem.sectorBytes
  rw [FatFilesystem.storeSectors_bytes, FatFilesystem.storeSectors_bootSector]
  by_cases same : other = sector
  · rw [if_pos same, same, ← whole]
    exact readBytes_writeBytes_same _ _ _
  · rw [if_neg same]
    apply readBytes_congr
    intro i lower upper
    apply writeBytes_outside
    cases Nat.lt_or_gt_of_ne same with
    | inl before =>
      have := Nat.mul_le_mul_right fs.bootSector.bytesPerSector (Nat.succ_le_of_lt before)
      rw [Nat.succ_mul] at this
      omega
    | inr after =>
      have := Nat.mul_le_mul_right fs.bootSector.bytesPerSector (Nat.succ_le_of_lt after)
      rw [Nat.succ_mul] at this
      omega

/-! ## Leaving a sector -/

/-- The session after the current sector has been written, if it was changed. -/
def DirSession.flushed (s : DirSession) : DirSession :=
  if s.iter.currentSectorDirty then
    { fs := s.fs.storeSectors s.iter.currentSectorIndex s.iter.currentSector
      iter := { s.iter with currentSectorDirty := false } }
  else s

section
variable {s : DirSession} {content : Content}

theorem flushed_clean (s : DirSession) : s.flushed.iter.currentSectorDirty = false := by
  unfold DirSession.flushed
  split
  · rfl
  · rename_i clean
    exact Bool.eq_false_iff.mpr clean

theorem flushed_upcoming {later : List Nat} (upcoming : Upcoming s.fs s.iter later) :
    Upcoming s.flushed.fs s.flushed.iter later := by
  unfold DirSession.flushed
  split
  · cases upcoming with
    | root dir small inside => exact .root dir small inside
    | chain dir linked small => exact .chain dir linked small
  · exact upcoming

theorem Shows.flushed (showing : Shows s content) : Shows s.flushed content := by
  obtain ⟨working, length, held, stored⟩ := showing
  unfold DirSession.flushed
  split
  · refine ⟨working, length, held, ?_⟩
    intro sector _
    show (s.fs.storeSectors s.iter.currentSectorIndex s.iter.currentSector).sectorBytes sector = _
    rw [sectorBytes_storeSectors s.fs length]
    split
    · rename_i current
      rw [held, current]
    · rename_i other
      exact stored sector (.inl other)
  · exact ⟨working, length, held, stored⟩

theorem Shows.flushCurrentSector (showing : Shows s content) :
    flushCurrentSector s = .ok () s.flushed := by
  unfold DirSession.flushed
  cases dirty : s.iter.currentSectorDirty with
  | false => exact flushCurrentSector_clean dirty
  | true =>
    have written : okOnly (onVolume (writeSectors s.iter.currentSectorIndex
        s.iter.currentSector)) s = .ok (some ())
          { s with fs := s.fs.storeSectors s.iter.currentSectorIndex s.iter.currentSector } :=
      okOnly_ok (onVolume_ok (writeSectors_working showing.working _ showing.length))
    show (if s.iter.currentSectorDirty then _ else _ : DirM Unit) s = _
    rw [dirty, if_pos rfl, bind_of_ok written]
    rfl

/-- `next_sector` writes the sector it leaves. -/
theorem Shows.nextSector_flushed (showing : Shows s content) :
    nextSector s = nextSector s.flushed := by
  unfold nextSector
  rw [bind_of_ok showing.flushCurrentSector,
    bind_of_ok (flushCurrentSector_clean (flushed_clean s))]

end

/-! ## The slots before the iterator -/

/-- The content, and the slots of it that the iterator has before it. -/
structure Faces (s : DirSession) (content : Content) (slots : List Slot) : Prop where
  showing : Shows s content
  ahead : ∃ later, Upcoming s.fs s.iter later ∧
    slots = (slotsOf s.iter.currentSectorIndex s.iter.currentSector).drop
      s.iter.entryIndexInSector ++ content.slots later

/-- The iterator has just given the slot. -/
structure Gave (t : DirSession) (slot : Slot) : Prop where
  sector : t.iter.currentSectorIndex = slot.sector
  index : t.iter.entryIndexInSector = slot.index + 1

/-- A session after the next slot has been given. -/
structure GivesOn (t : DirSession) (content : Content) (slot : Slot) (rest : List Slot) :
    Prop where
  faces : Faces t content rest
  gave : Gave t slot

section
variable {s : DirSession} {content : Content} {slots : List Slot}

/-- An entry in the current sector is the first of the slots that come. -/
theorem Faces.getNextEntry_inside (faces : Faces s content slots)
    (inside : s.iter.entryIndexInSector < s.iter.currentSector.length / directoryEntrySize)
    (turns : Nat) : ∃ slot rest t, slots = slot :: rest ∧
      getNextEntry (turns + 1) s = .ok slot.bytes t ∧ GivesOn t content slot rest := by
  obtain ⟨showing, later, upcoming, slotsEq⟩ := faces
  rw [drop_slotsOf inside] at slotsEq
  refine ⟨_, _, _, slotsEq, getNextEntry_in_sector inside turns, ?_⟩
  obtain ⟨working, length, held, stored⟩ := showing
  refine ⟨⟨⟨working, length, held, stored⟩, later, ?_, rfl⟩, ⟨rfl, rfl⟩⟩
  cases upcoming with
  | root dir small inside => exact .root dir small inside
  | chain dir linked small => exact .chain dir linked small

/-- The sector that is entered next. -/
theorem Shows.nextSector (showing : Shows s content) {later : List Nat}
    (upcoming : Upcoming s.fs s.iter later) :
    (later = [] ∧ nextSector s = .ok false s.flushed) ∨
      ∃ sector rest t, later = sector :: rest ∧ nextSector s = .ok true t ∧ Shows t content ∧
        Upcoming t.fs t.iter rest ∧ t.iter.currentSectorIndex = sector ∧
        t.iter.entryIndexInSector = 0 := by
  rw [showing.nextSector_flushed]
  have still := showing.flushed
  cases nextSector_goes (flushed_clean s) (flushed_upcoming upcoming) with
  | inl finished => exact .inl finished
  | inr goes =>
    obtain ⟨sector, rest, cluster, rfl, run, goesOn⟩ := goes
    let t : DirSession :=
      { s.flushed with
        iter := { s.flushed.iter with
          currentCluster := cluster
          currentSector := s.flushed.fs.sectorBytes sector
          currentSectorIndex := sector
          entryIndexInSector := 0 } }
    have entered : (do enterSector sector; pure true : DirM Bool) (s.flushed.inCluster cluster) =
        .ok true t := by
      have read : onVolume (readSectorsNoCache sector 1) (s.flushed.inCluster cluster) =
          .ok (s.flushed.fs.sectorBytes sector) (s.flushed.inCluster cluster) :=
        onVolume_ok (readSectorsNoCache_working still.working sector)
      unfold enterSector
      rw [bind_assoc, bind_of_ok read]
      rfl
    refine .inr ⟨sector, rest, t, rfl, run.trans entered, ?_, ?_, rfl, rfl⟩
    · refine ⟨still.working, length_sectorBytes _ _, ?_, ?_⟩
      · exact still.stored sector (.inr (flushed_clean s))
      · intro other _
        exact still.stored other (.inr (flushed_clean s))
    · exact goesOn _ _ rfl rfl

/-- `get_next_entry` at the end of a sector. -/
theorem Faces.getNextEntry_outside (faces : Faces s content slots)
    (outside : ¬ s.iter.entryIndexInSector < s.iter.currentSector.length / directoryEntrySize)
    (turns : Nat) :
    (slots = [] ∧ getNextEntry (turns + 2) s =
      .error (.failure (.err .fileNotFound)) s.flushed) ∨
    ∃ slot rest t, slots = slot :: rest ∧ getNextEntry (turns + 2) s = .ok slot.bytes t ∧
      GivesOn t content slot rest := by
  obtain ⟨showing, later, upcoming, slotsEq⟩ := faces
  rw [List.drop_of_length_le (by rw [length_slotsOf]; omega)] at slotsEq
  have step := getNextEntry_past_sector outside (turns + 1)
  cases showing.nextSector upcoming with
  | inl finished =>
    obtain ⟨rfl, run⟩ := finished
    rw [bind_of_ok run] at step
    exact .inl ⟨slotsEq, step⟩
  | inr entered =>
    obtain ⟨sector, rest, t, rfl, run, showing', upcoming', index, atStart⟩ := entered
    rw [bind_of_ok run] at step
    have inside : t.iter.entryIndexInSector <
        t.iter.currentSector.length / directoryEntrySize := by
      rw [atStart, showing'.length]
      exact one_le_slots _
    have faces : Faces t content slots := by
      refine ⟨showing', rest, upcoming', ?_⟩
      rw [slotsEq, atStart, showing'.held, index]
      rfl
    obtain ⟨slot, after, u, split, given, gives⟩ := faces.getNextEntry_inside inside turns
    exact .inr ⟨slot, after, u, split, step.trans given, gives⟩

/-- At the end of the slots `get_next_entry` says so. -/
theorem Faces.getNextEntry_nil (faces : Faces s content []) (turns : Nat) :
    getNextEntry (turns + 2) s = .error (.failure (.err .fileNotFound)) s.flushed := by
  by_cases inside :
      s.iter.entryIndexInSector < s.iter.currentSector.length / directoryEntrySize
  · obtain ⟨slot, rest, t, slots, -⟩ := faces.getNextEntry_inside inside (turns + 1)
    cases slots
  · cases faces.getNextEntry_outside inside turns with
    | inl finished => exact finished.2
    | inr given =>
      obtain ⟨slot, rest, t, slots, -⟩ := given
      cases slots

/-- `get_next_entry` gives the next slot. -/
theorem Faces.getNextEntry_cons {slot : Slot} {rest : List Slot}
    (faces : Faces s content (slot :: rest)) (turns : Nat) :
    ∃ t, getNextEntry (turns + 2) s = .ok slot.bytes t ∧ GivesOn t content slot rest := by
  by_cases inside :
      s.iter.entryIndexInSector < s.iter.currentSector.length / directoryEntrySize
  · obtain ⟨slot, rest, t, slots, run, gives⟩ := faces.getNextEntry_inside inside (turns + 1)
    cases slots
    exact ⟨t, run, gives⟩
  · cases faces.getNextEntry_outside inside turns with
    | inl finished => cases finished.1
    | inr found =>
      obtain ⟨slot, rest, t, slots, run, gives⟩ := found
      cases slots
      exact ⟨t, run, gives⟩

end

end Emerald.Fs
