
import Emerald.Fs.Fat.Proofs.DirectorySlots

/-!
# Directories with any content

What a directory has to look like for `read_dir` and `treverse_dir` to go through it: each entry is
free, or the short entry of a node that has a name, or the long entries that announce their number
and then a short entry. `Leads` is this grammar for the next node, `Sound` for all those that are
looked at. The iterator takes the slots apart as the grammar says and panics where it does not
apply.
-/

namespace Emerald.Fs
variable {raw : List UInt8} {fs : FatFilesystem}

/-! ## The grammar of a directory -/

namespace Slot

/-- The node of a short entry. -/
def node (slot : Slot) (longName : Option (List Char)) : FatNode :=
  ⟨.fromRaw slot.bytes, longName, slot.sector, slot.index⟩

/-- The part of the name in a long entry. -/
def longPart (slot : Slot) : List Char := (DirectoryEntryLong.fromRaw slot.bytes).name

/-- The slot is a long entry that says it is the last one, of as many as given. -/
structure StartsName (slot : Slot) (count : Nat) : Prop where
  long : isLong slot.bytes = true
  last : (DirectoryEntryLong.fromRaw slot.bytes).sequenceNumber &&& 0x40 = 0x40
  number : ((DirectoryEntryLong.fromRaw slot.bytes).sequenceNumber &&& 0x3F).toNat = count

end Slot

/-- What the slots start with, up to the next node: there is none, because of the end of the slots
or the mark of the end, or there is one, with the slots that follow it. -/
inductive Leads : List Slot → Option (FatNode × List Slot) → Prop
  | finished : Leads [] none
  | last {slot : Slot} {rest : List Slot} (state : entryState slot.bytes = .freeAndLast) :
      Leads (slot :: rest) none
  | free {slot : Slot} {rest : List Slot} {found : Option (FatNode × List Slot)}
      (state : entryState slot.bytes = .free) (leads : Leads rest found) :
      Leads (slot :: rest) found
  | short {slot : Slot} {rest : List Slot} (state : entryState slot.bytes = .used)
      (normal : isLong slot.bytes = false) : Leads (slot :: rest) (some (slot.node none, rest))
  | long {first slot : Slot} {more rest : List Slot} (state : entryState first.bytes = .used)
      (starts : first.StartsName (more.length + 1)) (longs : ∀ m ∈ more, isLong m.bytes = true)
      (normal : isLong slot.bytes = false) :
      Leads (first :: (more ++ slot :: rest))
        (some (slot.node (some (longEntriesNameMerge ((first :: more).map Slot.longPart))), rest))
  | cut {first : Slot} {more : List Slot} {count : Nat} (state : entryState first.bytes = .used)
      (starts : first.StartsName count) (longs : ∀ m ∈ more, isLong m.bytes = true)
      (few : more.length < count) : Leads (first :: more) none

section
variable {slot : Slot} {rest : List Slot} {found : Option (FatNode × List Slot)}

theorem leads_nil_iff : Leads [] found ↔ found = none := by
  constructor
  · intro leads
    cases leads
    rfl
  · intro none
    rw [none]
    exact .finished

theorem leads_last_iff (last : entryState slot.bytes = .freeAndLast) :
    Leads (slot :: rest) found ↔ found = none := by
  constructor
  · intro leads
    cases leads with
    | last => rfl
    | cut => rfl
    | free state | short state | long state => rw [last] at state; cases state
  · intro none
    rw [none]
    exact .last last

theorem leads_free_iff (free : entryState slot.bytes = .free) :
    Leads (slot :: rest) found ↔ Leads rest found := by
  constructor
  · intro leads
    cases leads with
    | free _ leads => exact leads
    | last state | cut state | short state | long state => rw [free] at state; cases state
  · exact .free free

theorem leads_short_iff (used : entryState slot.bytes = .used)
    (normal : isLong slot.bytes = false) :
    Leads (slot :: rest) found ↔ found = some (slot.node none, rest) := by
  constructor
  · intro leads
    cases leads with
    | short => rfl
    | last state | free state => rw [used] at state; cases state
    | cut _ starts | long _ starts => cases normal.symm.trans starts.long
  · intro there
    rw [there]
    exact .short used normal

/-- A long entry leads to a node only if it is the last one of a name. -/
theorem Leads.startsName (leads : Leads (slot :: rest) found)
    (used : entryState slot.bytes = .used) (long : isLong slot.bytes = true) :
    ∃ count, slot.StartsName count := by
  cases leads with
  | last state | free state => rw [used] at state; cases state
  | short _ normal => rw [long] at normal; cases normal
  | long _ starts | cut _ starts => exact ⟨_, starts⟩

section
variable (used : entryState slot.bytes = .used) {m : Slot}
include used

/-- After a long entry come the others that it announces and a normal one, or they are cut off by
the end of the slots. -/
theorem leads_startsName_iff {count : Nat} (starts : slot.StartsName count) :
    Leads (slot :: rest) found ↔
      (found = none ∧ (∀ m ∈ rest, isLong m.bytes = true) ∧ rest.length < count) ∨
      ∃ more normal after, rest = more ++ normal :: after ∧ count = more.length + 1 ∧
        (∀ m ∈ more, isLong m.bytes = true) ∧ isLong normal.bytes = false ∧
        found = some (normal.node
          (some (longEntriesNameMerge ((slot :: more).map Slot.longPart))), after) := by
  constructor
  · intro leads
    cases leads with
    | last state | free state => rw [used] at state; cases state
    | short _ normal => cases normal.symm.trans starts.long
    | long _ starts' longs normal =>
      exact .inr ⟨_, _, _, rfl, starts.number.symm.trans starts'.number, longs, normal, rfl⟩
    | cut _ starts' longs few =>
      exact .inl ⟨rfl, longs, by rw [← starts.number, starts'.number]; exact few⟩
  · rintro (cut | whole)
    · obtain ⟨rfl, longs, few⟩ := cut
      exact .cut used starts longs few
    · obtain ⟨more, normal, after, rfl, rfl, longs, isNormal, rfl⟩ := whole
      exact .long used starts longs isNormal

theorem not_leads_of_startsName_zero (starts : slot.StartsName 0) :
    ¬ Leads (slot :: rest) found := by
  intro leads
  cases (leads_startsName_iff used starts).mp leads with
  | inl cut => exact Nat.not_lt_zero _ cut.2.2
  | inr whole =>
    obtain ⟨more, normal, after, -, number, -⟩ := whole
    cases number

/-- One of the long entries that are announced is not one. -/
theorem not_leads_of_normal_between {left : Nat} (starts : slot.StartsName (left + 1))
    (mem : m ∈ rest.take left) (normal : isLong m.bytes = false) :
    ¬ Leads (slot :: rest) found := by
  intro leads
  cases (leads_startsName_iff used starts).mp leads with
  | inl cut => cases (cut.2.1 m (List.mem_of_mem_take mem)).symm.trans normal
  | inr whole =>
    obtain ⟨more, short, after, rfl, number, longs, -⟩ := whole
    rw [Nat.succ.inj number, List.take_left] at mem
    cases (longs m mem).symm.trans normal

/-- There is a long entry where the normal one should be. -/
theorem not_leads_of_long_after {more : List Slot}
    (starts : slot.StartsName (more.length + 1)) (long : isLong m.bytes = true) :
    ¬ Leads (slot :: (more ++ m :: rest)) found := by
  intro leads
  cases (leads_startsName_iff used starts).mp leads with
  | inl cut =>
    have few := cut.2.2
    rw [List.length_append, List.length_cons] at few
    omega
  | inr whole =>
    obtain ⟨more', normal, after, split, number, _, isNormal, -⟩ := whole
    obtain ⟨rfl, tails⟩ := List.append_inj split (Nat.succ.inj number)
    cases tails
    cases long.symm.trans isNormal

end

end

/-- The slots lead to one node only. -/
theorem Leads.unique {slots : List Slot} {found found' : Option (FatNode × List Slot)}
    (leads : Leads slots found) (leads' : Leads slots found') : found = found' := by
  induction leads with
  | finished => exact (leads_nil_iff.mp leads').symm
  | last state => exact ((leads_last_iff state).mp leads').symm
  | free state _ ih => exact ih ((leads_free_iff state).mp leads')
  | short state normal => exact ((leads_short_iff state normal).mp leads').symm
  | long state starts longs normal =>
    cases (leads_startsName_iff state starts).mp leads' with
    | inl cut =>
      have few := cut.2.2
      rw [List.length_append, List.length_cons] at few
      omega
    | inr whole =>
      obtain ⟨more', normal', after, split, number, _, _, rfl⟩ := whole
      obtain ⟨rfl, tails⟩ := List.append_inj split (Nat.succ.inj number)
      cases tails
      rfl
  | cut state starts longs few =>
    cases (leads_startsName_iff state starts).mp leads' with
    | inl cut => exact cut.1.symm
    | inr whole =>
      obtain ⟨more', normal, after, rfl, number, -⟩ := whole
      rw [List.length_append, List.length_cons] at few
      omega

/-! ## The next node -/

section
variable {s : DirSession} {slots rest : List Slot}

theorem orPanic_some {α : Type} (a : α) {fs : FatFilesystem} :
    orPanic (some a) fs = .ok a fs := rfl

theorem asLong_of_isLong (long : isLong raw = true) :
    asLong raw = some (.fromRaw raw) := if_pos long

theorem asNormal_of_not_isLong (normal : isLong raw = false) :
    asNormal raw = some (.fromRaw raw) := by
  unfold asNormal
  rw [normal]
  rfl

/-- The first loop of `next` goes to an entry that is used and leads to the same node. -/
theorem nextUsed_spec (turns bound : Nat) (enough : slots.length < turns) (ahead : Ahead s slots) :
    Returns (nextUsed (bound + 2) turns) s fun found t =>
      (found = none ∧ Leads slots none ∧ t.iter.currentSectorDirty = false) ∨
      ∃ slot rest, found = some slot.bytes ∧ entryState slot.bytes = .used ∧ At t slot rest ∧
        rest.length < slots.length ∧ ∀ next, Leads slots next ↔ Leads (slot :: rest) next := by
  induction turns generalizing s slots with
  | zero => exact absurd enough (Nat.not_lt_zero _)
  | succ turns ih =>
    cases slots with
    | nil =>
      obtain ⟨t, run, clean⟩ := ahead.okOnly_getNextEntry_nil bound
      exact Returns.after run (.inl ⟨rfl, .finished, clean⟩)
    | cons slot rest =>
      obtain ⟨t, run, given⟩ := ahead.okOnly_getNextEntry_cons bound
      refine Returns.after run ?_
      cases state : entryState slot.bytes with
      | freeAndLast =>
        simp only [state]
        exact .inl ⟨rfl, .last state, given.ahead.clean⟩
      | used =>
        simp only [state]
        exact .inr ⟨slot, rest, rfl, state, given, Nat.lt_succ_self _, fun _ => Iff.rfl⟩
      | free =>
        simp only [state]
        have fewer : rest.length < turns := Nat.lt_of_succ_lt_succ enough
        refine (ih fewer given.ahead).mono ?_
        intro found u reached
        cases reached with
        | inl none => exact .inl ⟨none.1, .free state none.2.1, none.2.2⟩
        | inr there =>
          obtain ⟨slot', rest', rfl, used, given', less, same⟩ := there
          refine .inr ⟨slot', rest', rfl, used, given', Nat.lt_succ_of_lt less, ?_⟩
          intro next
          rw [leads_free_iff state, same]

/-- The loop over the long entries, of which there are `left` after the one it starts with. -/
theorem longNameEntries_spec (left bound : Nat) (longEntry : DirectoryEntryLong)
    (parts : List (List Char)) (entry : List UInt8) (ahead : Ahead s slots) :
    Meets (longNameEntries (bound + 2) (left + 1) longEntry parts entry) s
      (fun found t =>
        (found = none ∧ (∀ m ∈ slots, isLong m.bytes = true) ∧ slots.length < left + 1 ∧
          t.iter.currentSectorDirty = false) ∨
        ∃ more slot rest, slots = more ++ slot :: rest ∧ more.length = left ∧
          (∀ m ∈ more, isLong m.bytes = true) ∧ At t slot rest ∧
          found = some (parts ++ longEntry.name :: more.map Slot.longPart, slot.bytes))
      (fun stop _ => stop = .failure (.panic .assertion) ∧
        ∃ m ∈ slots.take left, isLong m.bytes = false) := by
  induction left generalizing s slots longEntry parts entry with
  | zero =>
    unfold longNameEntries
    cases slots with
    | nil =>
      obtain ⟨t, run, clean⟩ := ahead.okOnly_getNextEntry_nil bound
      rw [meets_after run]
      exact .inl ⟨rfl, List.forall_mem_nil _, Nat.zero_lt_one, clean⟩
    | cons slot rest =>
      obtain ⟨t, run, given⟩ := ahead.okOnly_getNextEntry_cons bound
      rw [meets_after run]
      exact .inr ⟨[], slot, rest, rfl, rfl, List.forall_mem_nil _, given, rfl⟩
  | succ left ih =>
    unfold longNameEntries
    cases slots with
    | nil =>
      obtain ⟨t, run, clean⟩ := ahead.okOnly_getNextEntry_nil bound
      rw [meets_after run]
      exact .inl ⟨rfl, List.forall_mem_nil _, Nat.succ_pos _, clean⟩
    | cons slot rest =>
      obtain ⟨t, run, given⟩ := ahead.okOnly_getNextEntry_cons bound
      rw [meets_after run]
      simp only [Nat.succ_pos, if_true]
      cases long : isLong slot.bytes with
      | false =>
        have refused : onVolume (orPanic (asLong slot.bytes)) t =
            .error (.failure (.panic .assertion)) t := by
          unfold asLong
          rw [long]
          rfl
        apply (meets_of_eq_error (bind_of_error refused)).mpr
        exact ⟨rfl, slot, List.mem_cons_self, long⟩
      | true =>
        have taken : onVolume (orPanic (asLong slot.bytes)) t = .ok (.fromRaw slot.bytes) t := by
          rw [asLong_of_isLong long]
          rfl
        rw [meets_after taken]
        refine (ih (.fromRaw slot.bytes) (parts ++ [longEntry.name]) slot.bytes
          given.ahead).mono ?_ ?_
        · intro found u reached
          cases reached with
          | inl cut =>
            refine .inl ⟨cut.1, ?_, Nat.succ_lt_succ cut.2.2.1, cut.2.2.2⟩
            exact List.forall_mem_cons.mpr ⟨long, cut.2.1⟩
          | inr there =>
            obtain ⟨more, normal, after, rfl, rfl, longs, given', rfl⟩ := there
            refine .inr ⟨slot :: more, normal, after, rfl, rfl, ?_, given', ?_⟩
            · exact List.forall_mem_cons.mpr ⟨long, longs⟩
            · rw [List.append_assoc]
              rfl
        · rintro stop u ⟨panics, m, mem, normal⟩
          exact ⟨panics, m, List.mem_cons_of_mem _ mem, normal⟩

theorem nodeOf_normal {slot : Slot} (given : At s slot rest)
    (normal : isLong slot.bytes = false) (longName : Option (List Char)) :
    nodeOf slot.bytes longName s = .ok (slot.node longName) s := by
  unfold nodeOf
  rw [asNormal_of_not_isLong normal, bind_of_ok (onVolume_ok (orPanic_some _)), get_bind]
  rw [given.index, given.sector]
  rfl

theorem nodeOf_long (long : isLong raw = true) (longName : Option (List Char)) :
    nodeOf raw longName s = .error (.failure (.panic .assertion)) s := by
  unfold nodeOf asNormal
  rw [long]
  rfl

/-- What `next` does with the slots before the iterator. -/
def NextNode (slots : List Slot) (found : Option FatNode) (t : DirSession) : Prop :=
  (found = none ∧ Leads slots none ∧ t.iter.currentSectorDirty = false) ∨
    ∃ node rest, found = some node ∧ Leads slots (some (node, rest)) ∧ Ahead t rest ∧
      rest.length < slots.length

/-- The long entries and the normal one after them are taken apart as the grammar says. -/
theorem longNode_spec {first : Slot} (given : At s first rest)
    (used : entryState first.bytes = .used) (long : isLong first.bytes = true) (bound : Nat) :
    Meets (do
        let longEntry ← onVolume (orPanic (asLong first.bytes))
        onVolume (assertThat (longEntry.sequenceNumber &&& 0x40 = 0x40))
        let numberOfEntries := (longEntry.sequenceNumber &&& 0x3F).toNat
        match ← longNameEntries (bound + 2) numberOfEntries longEntry [] first.bytes with
        | none => pure none
        | some (parts, entry) => some <$> nodeOf entry (some (longEntriesNameMerge parts)))
      s (NextNode (first :: rest))
      (fun stop _ => stop = .failure (.panic .assertion) ∧
        ∀ found, ¬ Leads (first :: rest) found) := by
  have taken : onVolume (orPanic (asLong first.bytes)) s = .ok (.fromRaw first.bytes) s := by
    rw [asLong_of_isLong long]
    rfl
  rw [meets_after taken]
  by_cases last : (DirectoryEntryLong.fromRaw first.bytes).sequenceNumber &&& 0x40 = 0x40
  · have asserted : onVolume (assertThat (decide
        ((DirectoryEntryLong.fromRaw first.bytes).sequenceNumber &&& 0x40 = 0x40))) s =
        .ok () s := by
      rw [decide_eq_true last]
      rfl
    rw [meets_after asserted]
    have starts : first.StartsName
        ((DirectoryEntryLong.fromRaw first.bytes).sequenceNumber &&& 0x3F).toNat :=
      ⟨long, last, rfl⟩
    generalize ((DirectoryEntryLong.fromRaw first.bytes).sequenceNumber &&& 0x3F).toNat = count
      at starts
    cases count with
    | zero =>
      apply meets_map.mpr
      apply (meets_of_eq_error (nodeOf_long long _)).mpr
      exact ⟨rfl, fun _ => not_leads_of_startsName_zero used starts⟩
    | succ left =>
      apply meets_bind.mpr
      refine (longNameEntries_spec left bound (.fromRaw first.bytes) [] first.bytes
        given.ahead).mono ?_ ?_
      · intro found t reached
        cases reached with
        | inl cut =>
          obtain ⟨rfl, longs, few, clean⟩ := cut
          exact .inl ⟨rfl, .cut used starts longs few, clean⟩
        | inr there =>
          obtain ⟨more, slot, after, rfl, rfl, longs, given', rfl⟩ := there
          apply meets_map.mpr
          cases normal : isLong slot.bytes with
          | false =>
            apply (meets_of_eq_ok (nodeOf_normal given' normal _)).mpr
            refine .inr ⟨_, after, rfl, .long used starts longs normal, given'.ahead, ?_⟩
            simp only [List.length_cons, List.length_append]
            omega
          | true =>
            apply (meets_of_eq_error (nodeOf_long normal _)).mpr
            exact ⟨rfl, fun _ => not_leads_of_long_after used starts normal⟩
      · rintro stop t ⟨rfl, m, mem, normal⟩
        exact ⟨rfl, fun _ => not_leads_of_normal_between used starts mem normal⟩
  · have asserted : onVolume (assertThat (decide
        ((DirectoryEntryLong.fromRaw first.bytes).sequenceNumber &&& 0x40 = 0x40))) s =
        .error (.failure (.panic .assertion)) s := by
      rw [decide_eq_false last]
      rfl
    apply (meets_of_eq_error (bind_of_error asserted)).mpr
    refine ⟨rfl, ?_⟩
    intro found leads
    obtain ⟨count, starts⟩ := leads.startsName used long
    exact last starts.last

/-- `next` gives the node that the slots lead to, and panics if the grammar does not apply. -/
theorem nextNode_spec (bound : Nat) (enough : slots.length < bound + 2) (ahead : Ahead s slots) :
    Meets (nextNode (bound + 2)) s (NextNode slots)
      (fun stop _ => stop = .failure (.panic .assertion) ∧ ∀ found, ¬ Leads slots found) := by
  unfold nextNode
  obtain ⟨found, t, run, reached⟩ := (nextUsed_spec (bound + 2) bound enough ahead).exists
  rw [meets_after run]
  cases reached with
  | inl none =>
    obtain ⟨rfl, leads, clean⟩ := none
    exact .inl ⟨rfl, leads, clean⟩
  | inr there =>
    obtain ⟨slot, rest, rfl, used, given, less, same⟩ := there
    simp only
    cases long : isLong slot.bytes with
    | true =>
      rw [if_pos rfl]
      refine (longNode_spec given used long bound).mono ?_ ?_
      · intro found u next
        cases next with
        | inl none => exact .inl ⟨none.1, (same _).mpr none.2.1, none.2.2⟩
        | inr node =>
          obtain ⟨node, after, rfl, leads, ahead, fewer⟩ := node
          refine .inr ⟨node, after, rfl, (same _).mpr leads, ahead, ?_⟩
          rw [List.length_cons] at fewer
          omega
      · intro stop u failed
        exact ⟨failed.1, fun found leads => failed.2 found ((same _).mp leads)⟩
    | false =>
      apply meets_map.mpr
      apply (meets_of_eq_ok (nodeOf_normal given long _)).mpr
      exact .inr ⟨_, rest, rfl, (same _).mpr (.short used long), given.ahead, less⟩

end

/-! ## All the nodes -/

/-- The name of the entry is not blank. -/
def FatNode.Named (node : FatNode) : Prop :=
  ∃ byte ∈ node.normalEntry.shortName.take 8, byte ≠ 0x20

theorem DirectoryEntryNormal.name_isSome_iff (entry : DirectoryEntryNormal) :
    entry.name.isSome ↔ ∃ byte ∈ entry.shortName.take 8, byte ≠ 0x20 := by
  have found : ((entry.shortName.take 8).reverse.findIdx? (· != 0x20)).isSome ↔
      ∃ byte ∈ entry.shortName.take 8, byte ≠ 0x20 := by
    rw [List.findIdx?_isSome, List.any_eq_true]
    simp only [List.mem_reverse, bne_iff_ne]
  rw [← found]
  unfold name
  simp only [Option.bind_eq_bind]
  cases (entry.shortName.take 8).reverse.findIdx? (· != 0x20) with
  | none => exact Iff.rfl
  | some back =>
    split <;> rfl

section
variable {τ : Type}
variable {node : FatNode}

/-- The slots are those of nodes with names, for as long as the loop over them goes on, which
depends on what it has made of the nodes before. -/
inductive Sound (goesOn : τ → FatNode → Option τ) : τ → List Slot → Prop
  | finished {t : τ} {slots : List Slot} (leads : Leads slots none) : Sound goesOn t slots
  | stops {t : τ} {slots rest : List Slot} {node : FatNode}
      (leads : Leads slots (some (node, rest))) (named : node.Named) (stop : goesOn t node = none) :
      Sound goesOn t slots
  | continues {t t' : τ} {slots rest : List Slot} {node : FatNode}
      (leads : Leads slots (some (node, rest))) (named : node.Named)
      (goes : goesOn t node = some t') (later : Sound goesOn t' rest) : Sound goesOn t slots

/-- The body of the loop needs the name of a node, and says whether to go on. -/
structure Visits (body : τ → FatNode → Option (ForInStep τ)) (goesOn : τ → FatNode → Option τ) :
    Prop where
  panics : ∀ t node, ¬ node.Named → body t node = none
  stops : ∀ t node, node.Named → goesOn t node = none → ∃ t', body t node = some (.done t')
  continues : ∀ t t' node, node.Named → goesOn t node = some t' → body t node = some (.yield t')

variable {body : τ → FatNode → Option (ForInStep τ)} {goesOn : τ → FatNode → Option τ}
  {slots : List Slot} {s : DirSession} {t : τ}

/-- If the slots lead to a node, that has to have a name, and the loop to stop or to find the rest
sound. -/
theorem sound_some_iff {rest : List Slot} (leads : Leads slots (some (node, rest))) :
    Sound goesOn t slots ↔
      node.Named ∧ ∀ t', goesOn t node = some t' → Sound goesOn t' rest := by
  constructor
  · intro sound
    cases sound with
    | finished leads' => cases leads.unique leads'
    | stops leads' named stop =>
      cases leads.unique leads'
      refine ⟨named, ?_⟩
      intro t' goes
      cases stop.symm.trans goes
    | continues leads' named goes later =>
      cases leads.unique leads'
      refine ⟨named, ?_⟩
      intro t' goes'
      cases goes.symm.trans goes'
      exact later
  · rintro ⟨named, later⟩
    cases goes : goesOn t node with
    | none => exact .stops leads named goes
    | some t' => exact .continues leads named goes (later t' goes)

theorem not_sound (misled : ∀ found, ¬ Leads slots found) : ¬ Sound goesOn t slots := by
  intro sound
  cases sound with
  | finished leads | stops leads | continues leads => exact misled _ leads

/-- The loop over the nodes comes to its end if the slots are sound, and panics if they are not. -/
theorem forNodes_spec (visits : Visits body goesOn) (turns bound : Nat)
    (enough : slots.length < turns) (bounded : slots.length < bound + 2) (ahead : Ahead s slots) :
    Meets (forNodes (bound + 2) body turns t) s
      (fun _ u => Sound goesOn t slots ∧ u.iter.currentSectorDirty = false)
      (fun stop _ => stop = .failure (.panic .assertion) ∧ ¬ Sound goesOn t slots) := by
  induction turns generalizing s slots t with
  | zero => exact absurd enough (Nat.not_lt_zero _)
  | succ turns ih =>
    apply meets_bind.mpr
    refine (nextNode_spec bound bounded ahead).mono ?_ ?_
    · intro found u next
      cases next with
      | inl none =>
        obtain ⟨rfl, leads, clean⟩ := none
        exact ⟨.finished leads, clean⟩
      | inr there =>
        obtain ⟨node, rest, rfl, leads, ahead', fewer⟩ := there
        simp only [sound_some_iff leads]
        by_cases named : node.Named
        · cases goes : goesOn t node with
          | none =>
            obtain ⟨t', stops⟩ := visits.stops t node named goes
            rw [stops]
            exact ⟨⟨named, fun _ impossible => nomatch impossible⟩, ahead'.clean⟩
          | some t' =>
            rw [visits.continues t t' node named goes]
            refine (ih (by omega) (by omega) ahead').mono ?_ ?_
            · intro _ v done
              refine ⟨⟨named, ?_⟩, done.2⟩
              intro t'' same
              cases same
              exact done.1
            · intro stop v failed
              exact ⟨failed.1, fun sound => failed.2 (sound.2 t' rfl)⟩
        · have refused : onVolume (orPanic (body t node)) u =
              .error (.failure (.panic .assertion)) u := by
            rw [visits.panics t node named]
            rfl
          apply (meets_of_eq_error (bind_of_error refused)).mpr
          exact ⟨rfl, fun sound => named sound.1⟩
    · intro stop u failed
      exact ⟨failed.1, not_sound failed.2⟩

/-! ## `read_dir` and `treverse_dir` -/

/-- What the handler of `read_dir` goes on with after a node, unless it says to stop. -/
def handlerGoesOn (handler : τ → Node → τ × DirTreverse) (t : τ) (node : FatNode) : Option τ := do
  let node ← node.toNode
  match handler t node with
  | (t, .cont) => some t
  | (_, .stop) => none

/-- `treverse_dir` goes on unless the node matches. -/
def matcherGoesOn (matcher : List Char) (_ : Option Node) (node : FatNode) :
    Option (Option Node) :=
  if node.matchesName matcher = some true then none else some none

theorem FatNode.Named.name (named : node.Named) : ∃ name, node.normalEntry.name = some name :=
  Option.isSome_iff_exists.mp ((DirectoryEntryNormal.name_isSome_iff _).mpr named)

theorem FatNode.name_of_not_named (blank : ¬ node.Named) : node.normalEntry.name = none := by
  rw [← Option.not_isSome_iff_eq_none]
  exact fun some => blank ((DirectoryEntryNormal.name_isSome_iff _).mp some)

theorem visits_handleNode (handler : τ → Node → τ × DirTreverse) :
    Visits (handleNode handler) (handlerGoesOn handler) where
  panics t node blank := by
    unfold handleNode FatNode.toNode
    rw [node.name_of_not_named blank]
    rfl
  stops t node named stop := by
    obtain ⟨name, there⟩ := named.name
    unfold handlerGoesOn FatNode.toNode at stop
    unfold handleNode FatNode.toNode
    simp only [there, some_bind] at stop ⊢
    split at stop
    · cases stop
    · rename_i t' answer
      exact ⟨t', by rw [answer]⟩
  continues t t' node named goes := by
    obtain ⟨name, there⟩ := named.name
    unfold handlerGoesOn FatNode.toNode at goes
    unfold handleNode FatNode.toNode
    simp only [there, some_bind] at goes ⊢
    split at goes
    · rename_i answer
      cases goes
      rw [answer]
    · cases goes

end

theorem visits_matchNode (matcher : List Char) :
    Visits (matchNode matcher) (matcherGoesOn matcher) where
  panics t node blank := by
    have name := node.name_of_not_named blank
    unfold matchNode FatNode.matchesName FatNode.toNode
    rw [name]
    split <;> rfl
  stops t node named stop := by
    obtain ⟨name, there⟩ := named.name
    unfold matcherGoesOn at stop
    split at stop
    · rename_i hits
      unfold matchNode FatNode.toNode
      rw [hits, there]
      exact ⟨_, rfl⟩
    · cases stop
  continues t t' node named goes := by
    obtain ⟨name, there⟩ := named.name
    unfold matcherGoesOn at goes
    split at goes
    · cases goes
    · rename_i misses
      cases goes
      have answered : node.matchesName matcher = some false := by
        unfold FatNode.matchesName at misses ⊢
        rw [there] at misses ⊢
        split at misses
        · exact absurd rfl misses
        · rename_i longName
          rw [if_neg longName]
          exact congrArg some (Bool.eq_false_iff.mpr fun hit => misses (congrArg some hit))
      unfold matchNode
      rw [answered]
      rfl

/-- The program returns or fails with an error: it does not panic, and its loops end. -/
def NoPanic {α : Type} (p : EStateM DirFailure FatFilesystem α) (fs : FatFilesystem) : Prop :=
  Meets p fs (fun _ _ => True) fun stop _ => ∃ error, stop = .failure (.err error)

instance {α : Type} (p : EStateM DirFailure FatFilesystem α) (fs : FatFilesystem) :
    Decidable (NoPanic p fs) :=
  match run : p fs with
  | .ok _ _ => .isTrue ((meets_of_eq_ok run).mpr trivial)
  | .error (.failure (.err error)) _ => .isTrue ((meets_of_eq_error run).mpr ⟨error, rfl⟩)
  | .error (.failure (.panic _)) _ | .error .unfinished _ =>
    .isFalse fun met => nomatch (meets_of_eq_error run).mp met

/-- The program returns, fails or panics: its loops end. -/
def Ends {α : Type} (p : EStateM DirFailure FatFilesystem α) (fs : FatFilesystem) : Prop :=
  Meets p fs (fun _ _ => True) fun stop _ => stop ≠ .unfinished

/-- A program that panics exactly if the condition fails. -/
theorem ends_and_noPanic_iff {α : Type} {p : EStateM DirFailure FatFilesystem α} {condition : Prop}
    (spec : Meets p fs (fun _ _ => condition) fun stop _ =>
      ((∃ error, stop = .failure (.err error)) ∧ condition) ∨
      (stop = .failure (.panic .assertion) ∧ ¬ condition)) :
    Ends p fs ∧ (NoPanic p fs ↔ condition) := by
  unfold Ends NoPanic
  cases run : p fs with
  | ok a fs' =>
    rw [meets_of_eq_ok run, meets_of_eq_ok run]
    exact ⟨trivial, iff_of_true trivial (spec.of_ok run)⟩
  | error stop fs' =>
    rw [meets_of_eq_error run, meets_of_eq_error run]
    cases spec.of_error run with
    | inl failed =>
      obtain ⟨⟨error, rfl⟩, holds⟩ := failed
      exact ⟨nofun, iff_of_true ⟨error, rfl⟩ holds⟩
    | inr panicked =>
      obtain ⟨rfl, fails⟩ := panicked
      exact ⟨nofun, iff_of_false nofun fails⟩

/-- The iterator at the first of its sectors has all of their slots before it. -/
theorem start_spec {dir : Directory} {sector cluster : Nat}
    {rest : List Nat} (upcoming : ∀ fs' data, fs'.bootSector = fs.bootSector → fs'.fat = fs.fat →
      Upcoming fs' ⟨dir, data, sector, cluster, false, 0⟩ rest) :
    Meets (DirectoryIterator.start dir sector cluster) fs
      (fun iter fs' => Ahead ⟨fs', iter⟩ (fs.slotsIn (sector :: rest)))
      (fun failure _ => (∃ error, failure = .err error) ∧ fs.slotsIn (sector :: rest) = []) := by
  apply meets_bind.mpr
  have read := readSectorsNoCache_one fs sector
  unfold Meets
  generalize readSectorsNoCache sector 1 fs = result at read ⊢
  cases read with
  | @read faultIn counts =>
    refine ⟨rfl, length_sectorBytes fs sector, rest, upcoming _ _ rfl rfl, ?_⟩
    show fs.slotsIn (sector :: rest) = _
    unfold FatFilesystem.slotsIn
    rw [counts]
    rfl
  | refused none =>
    refine ⟨⟨_, rfl⟩, ?_⟩
    unfold FatFilesystem.slotsIn
    rw [none]
    rfl

/-- The iterator over a well-formed directory starts before all of the slots it reads. -/
theorem openDirInode_spec {inode : DirectoryNode} {sectors : List Nat}
    (directory : IsDirectory fs inode sectors) :
    Meets (openDirInode inode) fs
      (fun iter fs' => Ahead ⟨fs', iter⟩ (fs.slotsIn sectors))
      (fun failure _ => (∃ error, failure = .err error) ∧ fs.slotsIn sectors = []) := by
  apply meets_get_bind.mpr
  cases directory with
  | root root inside =>
    rw [if_pos root]
    have isRoot : openRootDir fs.bootSector =
        .rootFat12_16 fs.bootSector.rootDirStartSector fs.bootSector.rootDirSectors := by
      unfold openRootDir
      cases ty : fs.bootSector.ty with
      | fat12 => rfl
      | fat16 => rfl
      | fat32 => exact absurd ty root.1
    rw [isRoot]
    refine start_spec ?_
    intro fs' data boot fat
    have upcoming : Upcoming fs' ⟨.rootFat12_16 fs.bootSector.rootDirStartSector
        fs.bootSector.rootDirSectors, data, fs.bootSector.rootDirStartSector, 0, false, 0⟩ _ :=
      .root rfl (by show fs.bootSector.rootDirStartSector + 1 < 2 ^ 32; omega) (by omega)
    rw [Nat.add_sub_add_left] at upcoming
    exact upcoming
  | chain notRoot linked _ =>
    rw [if_neg notRoot]
    apply meets_get_bind.mpr
    simp only
    rw [if_neg notRoot]
    refine start_spec ?_
    intro fs' data boot fat
    rw [← boot]
    exact .chain rfl (fat ▸ linked) (wrap32_lt _)

section
variable {τ : Type} {fs : FatFilesystem} {inode : DirectoryNode} {sectors : List Nat} {bound : Nat}

/-- A loop over a well-formed directory returns or fails if its slots are sound, and panics if they
are not. -/
theorem withIterator_spec {body : τ → FatNode → Option (ForInStep τ)}
    {goesOn : τ → FatNode → Option τ} (visits : Visits body goesOn)
    (directory : IsDirectory fs inode sectors)
    (enough : (fs.slotsIn sectors).length + 2 ≤ bound) (t : τ) :
    Meets (withIterator inode (forNodes bound body bound t)) fs
      (fun _ _ => Sound goesOn t (fs.slotsIn sectors))
      (fun stop _ =>
        ((∃ error, stop = .failure (.err error)) ∧ Sound goesOn t (fs.slotsIn sectors)) ∨
        (stop = .failure (.panic .assertion) ∧ ¬ Sound goesOn t (fs.slotsIn sectors))) := by
  obtain ⟨bound, rfl⟩ := Nat.exists_eq_add_of_le' (le_trans (Nat.le_add_left 2 _) enough)
  have opened := openDirInode_spec directory
  unfold Meets withIterator
  cases run : openDirInode inode fs with
  | error failure fs' =>
    obtain ⟨⟨error, rfl⟩, none⟩ := opened.of_error run
    rw [none]
    exact .inl ⟨⟨error, rfl⟩, .finished .finished⟩
  | ok iter fs' =>
    have ahead := opened.of_ok run
    have looped := forNodes_spec (t := t) visits (bound + 2) bound (by omega) (by omega) ahead
    simp only
    cases ran : forNodes (bound + 2) body (bound + 2) t ⟨fs', iter⟩ with
    | error stop s =>
      rw [bind_of_error ran]
      exact .inr (looped.of_error ran)
    | ok t' s =>
      obtain ⟨sound, clean⟩ := looped.of_ok ran
      rw [bind_of_ok ran, bind_of_ok (flushCurrentSector_clean clean)]
      exact sound

/-- `read_dir` and `treverse_dir` of a well-formed directory come to an end, and they do so without
a panic exactly if the slots in the sectors of the iterator are sound as far as they are read. -/
theorem readDir_treverseDir_noPanic_iff (directory : IsDirectory fs inode sectors)
    (enough : (fs.slotsIn sectors).length + 2 ≤ bound) (handler : τ → Node → τ × DirTreverse)
    (t : τ) (matcher : List Char) :
    (Ends (readDir bound inode handler t) fs ∧
      (NoPanic (readDir bound inode handler t) fs ↔
        Sound (handlerGoesOn handler) t (fs.slotsIn sectors))) ∧
    (Ends (treverseDir bound inode matcher) fs ∧
      (NoPanic (treverseDir bound inode matcher) fs ↔
        Sound (matcherGoesOn matcher) none (fs.slotsIn sectors))) := by
  have listed := withIterator_spec (visits_handleNode handler) directory enough t
  have matched := withIterator_spec (visits_matchNode matcher) directory enough none
  refine ⟨ends_and_noPanic_iff listed, ends_and_noPanic_iff (meets_bind.mpr (matched.mono ?_ ?_))⟩
  · intro found fs' sound
    cases found with
    | none => exact .inl ⟨⟨.fileNotFound, rfl⟩, sound⟩
    | some node => exact sound
  · intro stop fs' stopped
    exact stopped

end

/-- A volume whose cluster 2 is a directory with the given slots at its start, and then empty. -/
def directoryWith (slots : List (List UInt8)) : FatFilesystem where
  startLba := 0
  bootSector := blankBoot
  fat := ⟨[0, 0, 0, 0xFF, 0x0F], 512, .fat12, false, []⟩
  disk := ⟨fun address => slots.flatten.getD (address - 1536) 0, none⟩
  clusterCache := SortedMap.empty

/-- The node of that directory. -/
def directoryNode : DirectoryNode := ⟨⟨['d'], 0x10, 2, 2, 0⟩⟩

theorem isDirectory_directoryWith (slots : List (List UInt8)) :
    IsDirectory (directoryWith slots) directoryNode [3] := by
  have sectors : chainSectors blankBoot (wrap32 2) [] = [3] := by decide
  have ends : (directoryWith []).fat.readFatEntry (wrap32 2) = some .endOfChain := by decide
  have notRoot : ¬ (blankBoot.ty ≠ .fat32 ∧ directoryNode.startCluster = 0) := by decide
  have clusters : ∀ c ∈ [wrap32 directoryNode.startCluster],
      2 ≤ c ∧ blankBoot.dataStartSector + c * blankBoot.sectorsPerCluster < 2 ^ 32 := by decide
  have directory :=
    @IsDirectory.chain (directoryWith slots) directoryNode [] notRoot ends clusters
  show IsDirectory _ _ [3]
  rw [← sectors]
  exact directory

/-- A short entry with the given name. -/
def shortSlot (shortName : List UInt8) : List UInt8 := shortName ++ 0x20 :: List.replicate 20 0

/-- A long entry with the given number and a name of one letter. -/
def longSlot (sequenceNumber : UInt8) : List UInt8 :=
  [sequenceNumber, 0x61, 0, 0, 0, 0, 0, 0, 0, 0, 0, 0x0F] ++ List.replicate 20 0

/-- A handler that counts the nodes. -/
def countNode (count : Nat) (_ : Node) : Nat × DirTreverse := (count + 1, .cont)

/-- The name `AB` of a short entry. -/
def shortNameAB : List UInt8 := [0x41, 0x42] ++ List.replicate 9 0x20

/-- A volume whose directory has one node, with a long name. -/
def smallVolume : FatFilesystem := directoryWith [longSlot 0x41, shortSlot shortNameAB]

theorem slotsIn_smallVolume : smallVolume.slotsIn [3] =
    ⟨3, 0, longSlot 0x41⟩ :: ([] ++ ⟨3, 1, shortSlot shortNameAB⟩ :: (List.range' 2 14).map
      fun index => ⟨3, index, List.replicate 32 0⟩) := by
  decide +kernel

theorem sound_smallVolume {τ : Type} (goesOn : τ → FatNode → Option τ) (t : τ) :
    Sound goesOn t (smallVolume.slotsIn [3]) := by
  have used : entryState (longSlot 0x41) = .used := by decide
  have starts : Slot.StartsName ⟨3, 0, longSlot 0x41⟩ 1 := ⟨by decide, by decide, by decide⟩
  have normal : isLong (shortSlot shortNameAB) = false := by decide
  have named : ∃ byte ∈ (shortSlot shortNameAB).take 11 |>.take 8, byte ≠ 0x20 := by decide
  rw [slotsIn_smallVolume]
  refine (sound_some_iff (.long used starts (List.forall_mem_nil _) normal)).mpr ⟨named, ?_⟩
  intro t' _
  exact .finished (.last (by decide))

theorem noPanic_smallVolume :
    NoPanic (readDir 18 directoryNode countNode 0) smallVolume ∧
      NoPanic (treverseDir 18 directoryNode ['b']) smallVolume := by
  have enough : (smallVolume.slotsIn [3]).length + 2 ≤ 18 := by
    rw [slotsIn_smallVolume]
    decide
  have directory : IsDirectory smallVolume directoryNode [3] := isDirectory_directoryWith _
  obtain ⟨⟨-, listed⟩, -, matched⟩ :=
    readDir_treverseDir_noPanic_iff directory enough countNode 0 ['b']
  rw [listed, matched]
  exact ⟨sound_smallVolume _ _, sound_smallVolume _ _⟩

/-- The directory with the given slots is well formed, and both functions panic in it. -/
structure PanicsIn (slots : List (List UInt8)) : Prop where
  directory : IsDirectory (directoryWith slots) directoryNode [3]
  readDir : ¬ NoPanic (readDir 18 directoryNode countNode 0) (directoryWith slots)
  treverseDir : ¬ NoPanic (treverseDir 18 directoryNode ['b']) (directoryWith slots)

/-- A blank short name, a long entry that is not marked as the last one, and one that no short entry
follows make the functions panic. -/
theorem malformed_directory_panics :
    PanicsIn [shortSlot (List.replicate 11 0x20)] ∧
      PanicsIn [longSlot 0x01, shortSlot shortNameAB] ∧
      PanicsIn [longSlot 0x41, longSlot 0x41] := by
  refine ⟨⟨isDirectory_directoryWith _, ?_, ?_⟩, ⟨isDirectory_directoryWith _, ?_, ?_⟩,
    ⟨isDirectory_directoryWith _, ?_, ?_⟩⟩
  all_goals decide +kernel

end Emerald.Fs
