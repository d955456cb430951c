
import Emerald.Fs.Fat.EntryNames

/-!
# Long names

What `create_dir_entries` stores of a name, and what `DirectoryEntryLong::name` and
`long_entries_name_merge` read of it.
-/

namespace Emerald.Fs
variable {part name : List Char} {parts : List (List Char)} {number : UInt8} {turns : Nat}

/-! ## The bytes of an entry -/

theorem units_flatMap_toLE {l : List Nat} (small : ∀ unit ∈ l, unit < 2 ^ 16) :
    units (l.flatMap (toLE 2)) = l := by
  induction l with
  | nil => rfl
  | cons unit l ih =>
    obtain ⟨here, rest⟩ := List.forall_mem_cons.mp small
    have value : fromLE (toLE 2 unit) = unit := by
      rw [fromLE_toLE]
      exact Nat.mod_eq_of_lt here
    show fromLE (toLE 2 unit) :: units (l.flatMap (toLE 2)) = _
    rw [ih rest, value]

theorem length_flatMap_toLE (l : List Nat) : (l.flatMap (toLE 2)).length = 2 * l.length := by
  induction l with
  | nil => rfl
  | cons unit l ih =>
    rw [List.flatMap_cons, List.length_append, length_toLE, List.length_cons]
    omega

/-- The parts of the name have the sizes of the fields. -/
structure DirectoryEntryLong.Stored (entry : DirectoryEntryLong) : Prop where
  length1 : entry.name1.length = 5
  length2 : entry.name2.length = 6
  length3 : entry.name3.length = 2
  small1 : ∀ unit ∈ entry.name1, unit < 2 ^ 16
  small2 : ∀ unit ∈ entry.name2, unit < 2 ^ 16
  small3 : ∀ unit ∈ entry.name3, unit < 2 ^ 16

/-- What is read of the bytes of an entry. -/
theorem DirectoryEntryLong.Stored.fromRaw_toRaw {entry : DirectoryEntryLong} (stored : entry.Stored)
    (checksum : UInt8) : fromRaw (entry.toRaw checksum) = entry := by
  obtain ⟨sequenceNumber, name1, name2, name3⟩ := entry
  have bytes1 : (name1.flatMap (toLE 2)).length = 10 := by
    rw [length_flatMap_toLE, stored.length1]
  have bytes2 : (name2.flatMap (toLE 2)).length = 12 := by
    rw [length_flatMap_toLE, stored.length2]
  have bytes3 : (name3.flatMap (toLE 2)).length = 4 := by
    rw [length_flatMap_toLE, stored.length3]
  have part1 : ((toRaw ⟨sequenceNumber, name1, name2, name3⟩ checksum).drop 1).take 10 =
      name1.flatMap (toLE 2) := by
    unfold toRaw
    simp only [List.append_assoc]
    rw [List.singleton_append, List.drop_succ_cons, List.drop_zero, List.take_left' bytes1]
  have part2 : ((toRaw ⟨sequenceNumber, name1, name2, name3⟩ checksum).drop 14).take 12 =
      name2.flatMap (toLE 2) := by
    unfold toRaw
    rw [List.append_assoc, List.append_assoc, List.drop_left', List.take_left' bytes2]
    simp only [List.length_append, bytes1, List.length_cons, List.length_nil]
  have part3 : ((toRaw ⟨sequenceNumber, name1, name2, name3⟩ checksum).drop 28).take 4 =
      name3.flatMap (toLE 2) := by
    unfold toRaw
    rw [List.drop_left', List.take_of_length_le (Nat.le_of_eq bytes3)]
    simp only [List.length_append, bytes1, bytes2, List.length_cons, List.length_nil]
  unfold fromRaw
  rw [part1, part2, part3, units_flatMap_toLE stored.small1, units_flatMap_toLE stored.small2,
    units_flatMap_toLE stored.small3]
  rfl

/-! ## The parts of a name -/

theorem length_unitsOf (part : List Char) : (unitsOf part).length = 13 := by
  rw [unitsOf, List.length_map, List.length_range]

theorem unitsOf_small (part : List Char) : ∀ unit ∈ unitsOf part, unit < 2 ^ 16 := by
  intro unit mem
  obtain ⟨i, -, rfl⟩ := List.mem_map.mp mem
  exact Nat.mod_lt _ (Nat.two_pow_pos 16)

theorem stored_longEntry (number : UInt8) (part : List Char) : (longEntry number part).Stored := by
  have small := unitsOf_small part
  have length := length_unitsOf part
  refine ⟨?_, ?_, ?_, ?_, ?_, ?_⟩
  · rfl
  · rfl
  · simp only [longEntry, List.length_drop, length]
  · exact fun unit mem => small unit (List.mem_of_mem_take mem)
  · exact fun unit mem => small unit (List.mem_of_mem_drop (List.mem_of_mem_take mem))
  · exact fun unit mem => small unit (List.mem_of_mem_drop mem)

/-- What is read of a part of a name. -/
def storedPart (part : List Char) : List Char :=
  decodeUtf16 ((unitsOf part).takeWhile (· != 0))

theorem name_longEntry (number : UInt8) (part : List Char) :
    (longEntry number part).name = storedPart part := by
  have joined : (longEntry number part).name1 ++ (longEntry number part).name2 ++
      (longEntry number part).name3 = unitsOf part := by
    simp only [longEntry]
    rw [List.append_assoc, ← List.drop_drop (i := 6) (j := 5), List.take_append_drop,
      List.take_append_drop]
  unfold DirectoryEntryLong.name storedPart
  rw [joined]

/-! ## UTF-16 -/

/-- The characters that are a single unit. -/
def IsUnit (c : Char) : Prop := c.toNat < 0x10000

instance : DecidablePred IsUnit := fun c => inferInstanceAs (Decidable (c.toNat < 0x10000))

theorem toNat_ofNat_lt {n : Nat} (small : n < 0x10000) : IsUnit (Char.ofNat n) := by
  by_cases valid : n.isValidChar
  · rw [Char.ofNat, dif_pos valid]
    exact small
  · rw [Char.ofNat, dif_neg valid]
    decide

theorem length_decodeUtf16_le (us : List Nat) : (decodeUtf16 us).length ≤ us.length := by
  fun_induction decodeUtf16 us with
  | case1 | case4 unit _ _ => exact le_rfl
  | case2 unit us _ ih | case3 unit us _ _ ih | case6 unit _ _ low after _ ih =>
    exact Nat.succ_le_succ ih
  | case5 unit _ _ low after _ ih =>
    rw [List.length_cons, List.length_cons, List.length_cons]
    omega

/-- If there are as many characters as units, no two units have become one character. -/
theorem isUnit_of_length_decodeUtf16 {us : List Nat} (small : ∀ unit ∈ us, unit < 2 ^ 16)
    (same : (decodeUtf16 us).length = us.length) : ∀ c ∈ decodeUtf16 us, IsUnit c := by
  fun_induction decodeUtf16 us with
  | case1 => exact List.forall_mem_nil _
  | case2 unit us _ ih =>
    obtain ⟨here, rest⟩ := List.forall_mem_cons.mp small
    exact List.forall_mem_cons.mpr ⟨toNat_ofNat_lt here, ih rest (Nat.succ.inj same)⟩
  | case3 unit us _ _ ih | case6 unit _ _ low after _ ih =>
    obtain ⟨-, rest⟩ := List.forall_mem_cons.mp small
    exact List.forall_mem_cons.mpr ⟨toNat_ofNat_lt (by decide), ih rest (Nat.succ.inj same)⟩
  | case4 unit _ _ => exact List.forall_mem_singleton.mpr (toNat_ofNat_lt (by decide))
  | case5 unit _ _ low after _ ih =>
    have fewer := length_decodeUtf16_le after
    rw [List.length_cons, List.length_cons, List.length_cons] at same
    omega

theorem decodeUtf16_map_toNat (units : ∀ c ∈ part, IsUnit c) :
    decodeUtf16 (part.map Char.toNat) = part := by
  induction part with
  | nil => rfl
  | cons c part ih =>
    have notSurrogate : c.toNat < 0xD800 ∨ 0xDFFF < c.toNat := by
      rcases c.valid with low | high
      · exact .inl low
      · exact .inr high.1
    rw [List.map_cons]
    unfold decodeUtf16
    rw [if_pos notSurrogate, Char.ofNat_toNat, ih (List.forall_mem_cons.mp units).2]

/-! ## Reading a part back -/

section
variable (short : part.length ≤ 13)
include short

theorem unitsOf_eq :
    unitsOf part = part.map (fun c => c.toNat % 2 ^ 16) ++
      List.replicate (13 - part.length) 0 := by
  have length := length_unitsOf part
  unfold unitsOf at length ⊢
  refine List.ext_getElem ?_ fun i below below' => ?_
  · rw [length, List.length_append, List.length_map, List.length_replicate]
    omega
  · rw [List.getElem_map, List.getElem_range]
    by_cases inside : i < part.length
    · rw [List.getElem_append_left (by rw [List.length_map]; exact inside), List.getElem_map,
        List.getD_eq_getElem _ _ inside]
    · rw [List.getElem_append_right (by rw [List.length_map]; omega), List.getElem_replicate,
        List.getD_eq_default _ _ (Nat.le_of_not_lt inside)]
      rfl

/-- A part is read up to the first character that has no bits in its unit. -/
theorem takeWhile_unitsOf :
    (unitsOf part).takeWhile (· != 0) =
      (part.map fun c => c.toNat % 2 ^ 16).takeWhile (· != 0) := by
  have zeros : (List.replicate (13 - part.length) 0).takeWhile (· != 0) = [] := by
    cases 13 - part.length <;> rfl
  rw [unitsOf_eq short, List.takeWhile_append, zeros, List.append_nil]
  split
  · rename_i whole
    exact ((List.takeWhile_prefix _).eq_of_length whole).symm
  · rfl

theorem length_takeWhile_unitsOf_le : ((unitsOf part).takeWhile (· != 0)).length ≤ part.length := by
  rw [takeWhile_unitsOf short]
  exact le_trans (List.takeWhile_prefix _).length_le (Nat.le_of_eq (List.length_map _))

theorem length_storedPart_le : (storedPart part).length ≤ part.length :=
  le_trans (length_decodeUtf16_le _) (length_takeWhile_unitsOf_le short)

/-- A part of which nothing is lost has only characters of one unit. -/
theorem isUnit_of_length_storedPart (same : (storedPart part).length = part.length) :
    ∀ c ∈ storedPart part, IsUnit c := by
  have fewer := length_takeWhile_unitsOf_le short
  have decoded := length_decodeUtf16_le ((unitsOf part).takeWhile (· != 0))
  unfold storedPart at same ⊢
  refine isUnit_of_length_decodeUtf16 ?_ (by omega)
  intro unit mem
  exact unitsOf_small part unit ((List.takeWhile_prefix _).subset mem)

theorem storedPart_eq (noNul : Char.ofNat 0 ∉ part) (units : ∀ c ∈ part, IsUnit c) :
    storedPart part = part := by
  have whole : (part.map fun c => c.toNat % 2 ^ 16) = part.map Char.toNat :=
    List.map_congr_left fun c mem => Nat.mod_eq_of_lt (units c mem)
  have nonzero : ∀ unit ∈ part.map Char.toNat, (unit != 0) = true := by
    intro unit mem
    obtain ⟨c, inside, rfl⟩ := List.mem_map.mp mem
    rw [bne_iff_ne]
    intro zero
    apply noNul
    rw [← zero, Char.ofNat_toNat]
    exact inside
  unfold storedPart
  rw [takeWhile_unitsOf short, whole, List.takeWhile_eq_self_iff.mpr nonzero,
    decodeUtf16_map_toNat units]

end

/-! ## All parts -/

/-- The entries of the parts of a name, from the given number on. -/
def numbered : UInt8 → List (List Char) → List DirectoryEntryLong
  | _, [] => []
  | number, [part] => [longEntry (number ||| 0x40) part]
  | number, part :: next :: rest => longEntry number part :: numbered (number + 1) (next :: rest)

theorem numbered_cons (number : UInt8) (part : List Char) (rest : List (List Char)) :
    numbered number (part :: rest) =
      longEntry (if rest.isEmpty then number ||| 0x40 else number) part ::
        numbered (number + 1) rest := by
  cases rest <;> rfl

/-- A name is cut in parts of 13 bytes, and the last one may be shorter. -/
inductive Cut : List Char → List (List Char) → Prop
  | nil : Cut [] []
  | last {part : List Char} (some : part ≠ []) (short : utf8Len part ≤ 13) : Cut part [part]
  | cons {part rest : List Char} {parts : List (List Char)} (length : utf8Len part = 13)
      (more : rest ≠ []) (cut : Cut rest parts) : Cut (part ++ rest) (part :: parts)

theorem Cut.flatten (cut : Cut name parts) : parts.flatten = name := by
  induction cut with
  | nil => rfl
  | last _ _ => rw [List.flatten_cons, List.flatten_nil, List.append_nil]
  | cons _ _ _ ih => rw [List.flatten_cons, ih]

theorem Cut.short (cut : Cut name parts) : ∀ part ∈ parts, part.length ≤ 13 := by
  induction cut with
  | nil => exact List.forall_mem_nil _
  | last _ short =>
    exact List.forall_mem_singleton.mpr (le_trans (length_le_utf8Len _) short)
  | cons length _ _ ih =>
    exact List.forall_mem_cons.mpr ⟨length ▸ length_le_utf8Len _, ih⟩

theorem Cut.nil_iff (cut : Cut name parts) : name = [] ↔ parts = [] := by
  cases cut with
  | nil => exact ⟨fun _ => rfl, fun _ => rfl⟩
  | last some _ => exact ⟨fun none => absurd none some, nofun⟩
  | cons _ more _ =>
    exact ⟨fun none => absurd (List.append_eq_nil_iff.mp none).2 more, nofun⟩

/-- A name can be cut if all multiples of 13 bytes are between characters. -/
theorem exists_cut_iff (name : List Char) : (∃ parts, Cut name parts) ↔
    ∀ k, 13 * k ≤ utf8Len name → IsCharBoundary name (13 * k) := by
  constructor
  · rintro ⟨parts, cut⟩
    induction cut with
    | nil =>
      intro k inside
      obtain rfl : k = 0 := by
        rw [utf8Len_nil] at inside
        omega
      exact isCharBoundary_zero _
    | last some short =>
      intro k inside
      rcases Nat.eq_zero_or_pos k with rfl | pos
      · exact isCharBoundary_zero _
      · rw [le_antisymm inside (by omega)]
        exact isCharBoundary_utf8Len _
    | cons length more cut ih =>
      intro k inside
      cases k with
      | zero => exact isCharBoundary_zero _
      | succ k =>
        rw [utf8Len_append] at inside
        rw [Nat.mul_succ, add_comm]
        exact (isCharBoundary_append length).mpr (ih k (by omega))
  · generalize bound : name.length = n
    induction n using Nat.strongRecOn generalizing name with
    | _ n ih =>
      intro boundaries
      by_cases empty : name = []
      · subst empty
        exact ⟨[], .nil⟩
      by_cases short : utf8Len name ≤ 13
      · exact ⟨[name], .last empty short⟩
      · obtain ⟨part, rest, rfl, length⟩ := boundaries 1 (by omega)
        have some : part ≠ [] := by
          rintro rfl
          cases length
        have shorter : rest.length < n := by
          rw [← bound, List.length_append]
          exact Nat.lt_add_of_pos_left (List.length_pos_of_ne_nil some)
        rw [utf8Len_append] at short
        obtain ⟨parts, cut⟩ := ih rest.length shorter rest rfl fun k inside => by
          have boundary := boundaries (k + 1) (by rw [utf8Len_append]; omega)
          rw [Nat.mul_succ, add_comm] at boundary
          exact (isCharBoundary_append length).mp boundary
        have more : rest ≠ [] := by
          rintro rfl
          rw [utf8Len_nil] at short
          omega
        exact ⟨part :: parts, .cons (by omega) more cut⟩

theorem createLongEntries_succ (turns : Nat) (number : UInt8) (some : name ≠ []) :
    createLongEntries (turns + 1) number name =
      (splitAtByte (min (utf8Len name) 13) name).bind fun parts =>
        (createLongEntries turns (number + 1) parts.2).map fun entries =>
          longEntry (if parts.2.isEmpty then number ||| 0x40 else number) parts.1 :: entries := by
  rw [createLongEntries]
  · simp only [Option.map_eq_bind]
    rfl
  · exact some

theorem createLongEntries_nil (turns : Nat) (number : UInt8) :
    createLongEntries turns number [] = some [] := by
  cases turns <;> rfl

/-- The loop of `create_dir_entries` makes the entries of the parts of a name. -/
theorem Cut.createLongEntries (cut : Cut name parts) (enough : name.length ≤ turns)
    (number : UInt8) : createLongEntries turns number name = some (numbered number parts) := by
  induction cut generalizing turns number with
  | nil => exact createLongEntries_nil turns number
  | last some short =>
    rename_i part
    obtain ⟨turns, rfl⟩ := Nat.exists_eq_add_of_le'
      (le_trans (List.length_pos_of_ne_nil some) enough)
    have split := splitAtByte_append part []
    rw [List.append_nil] at split
    rw [createLongEntries_succ _ _ some, min_eq_left short, split, Option.bind_some,
      createLongEntries_nil]
    rfl
  | cons length more cut ih =>
    rename_i part rest parts
    have some : part ++ rest ≠ [] := fun none => more (List.append_eq_nil_iff.mp none).2
    have partSome : 0 < part.length := by
      refine List.length_pos_of_ne_nil ?_
      rintro rfl
      cases length
    rw [List.length_append] at enough
    obtain ⟨turns, rfl⟩ := Nat.exists_eq_add_of_le' (show 1 ≤ turns by omega)
    have long : 13 ≤ utf8Len (part ++ rest) := by
      rw [utf8Len_append, length]
      exact Nat.le_add_right ..
    have split := splitAtByte_append part rest
    rw [length] at split
    have empty : rest.isEmpty = parts.isEmpty := by
      rw [Bool.eq_iff_iff, List.isEmpty_iff, List.isEmpty_iff]
      exact cut.nil_iff
    rw [createLongEntries_succ _ _ some, min_eq_right long, split, Option.bind_some,
      ih (by omega), numbered_cons, empty]
    rfl

/-- The loop of `create_dir_entries` panics if the name cannot be cut. -/
theorem exists_cut_of_createLongEntries {entries : List DirectoryEntryLong}
    (done : createLongEntries turns number name = some entries) : ∃ parts, Cut name parts := by
  induction turns generalizing name number entries with
  | zero =>
    cases name with
    | nil => exact ⟨[], .nil⟩
    | cons c name => cases done
  | succ turns ih =>
    by_cases some : name = []
    · subst some
      exact ⟨[], .nil⟩
    rw [createLongEntries_succ _ _ some] at done
    obtain ⟨⟨part, rest⟩, split, done⟩ := bind_eq_some.mp done
    obtain ⟨entries', made, -⟩ := Option.map_eq_some_iff.mp done
    obtain ⟨rfl, length⟩ := append_of_splitAtByte split
    obtain ⟨parts, cut⟩ := ih made
    rw [utf8Len_append] at length
    by_cases more : rest = []
    · subst more
      rw [List.append_nil] at some
      rw [List.append_nil]
      exact ⟨[part], .last some (by omega)⟩
    · have pos : 0 < utf8Len rest :=
        lt_of_lt_of_le (List.length_pos_of_ne_nil more) (length_le_utf8Len rest)
      exact ⟨part :: parts, .cons (by omega) more cut⟩

/-! ## The short name -/

/-- The short name of a name with more than eight bytes before its dot is cut after six of them. -/
def ShortCut (name : List Char) : Prop :=
  8 < utf8Len (filenameOf name) → IsCharBoundary (filenameOf name) 6

instance (name : List Char) : Decidable (ShortCut name) :=
  inferInstanceAs (Decidable (_ → _))

theorem shortNameOf_returns_iff (name : List Char) :
    (∃ shortName, shortNameOf name = some shortName) ↔ ShortCut name := by
  unfold shortNameOf ShortCut
  by_cases long : 8 < utf8Len (filenameOf name)
  · rw [if_pos long, isCharBoundary_iff]
    constructor
    · rintro ⟨shortName, done⟩ -
      obtain ⟨parts, split, -⟩ := bind_eq_some.mp done
      exact ⟨parts, split⟩
    · intro cut
      obtain ⟨parts, split⟩ := cut long
      rw [split]
      exact ⟨_, rfl⟩
  · rw [if_neg long]
    exact ⟨fun _ yes => absurd yes long, fun _ => ⟨_, rfl⟩⟩

/-! ## Reading a name back -/

/-- What is read of the entries of a name, which are stored last part first. -/
def readBack (normalEntry : DirectoryEntryNormal) (longEntries : List DirectoryEntryLong) :
    List Char :=
  longEntriesNameMerge (longEntries.reverse.map fun entry =>
    (DirectoryEntryLong.fromRaw (entry.toRaw normalEntry.nameChecksum)).name)

/-- `create_dir_entries` returns, and what is read of its entries is the name. -/
def RoundTrips (name : List Char) (attributes : UInt8) : Prop :=
  ∃ normalEntry longEntries, createDirEntries name attributes = some (normalEntry, longEntries) ∧
    readBack normalEntry longEntries = name

/-- Each multiple of 13 bytes, and byte 6 of a long name before its dot, is between characters. -/
def Cuttable (name : List Char) : Prop :=
  (∀ k, 13 * k ≤ utf8Len name → IsCharBoundary name (13 * k)) ∧ ShortCut name

theorem map_name_numbered (number : UInt8) (parts : List (List Char)) :
    (numbered number parts).map DirectoryEntryLong.name = parts.map storedPart := by
  induction parts generalizing number with
  | nil => rfl
  | cons part parts ih =>
    rw [numbered_cons, List.map_cons, List.map_cons, ih, name_longEntry]

theorem stored_of_mem_numbered {entry : DirectoryEntryLong}
    (mem : entry ∈ numbered number parts) : entry.Stored := by
  induction parts generalizing number with
  | nil => cases mem
  | cons part parts ih =>
    rw [numbered_cons] at mem
    cases mem with
    | head => exact stored_longEntry _ _
    | tail _ later => exact ih later

/-- What is read of the bytes of the entries. -/
theorem map_name_fromRaw_numbered (checksum number : UInt8) (parts : List (List Char)) :
    (numbered number parts).map
        (fun entry => (DirectoryEntryLong.fromRaw (entry.toRaw checksum)).name) =
      parts.map storedPart := by
  rw [← map_name_numbered number]
  refine List.map_congr_left fun entry mem => ?_
  rw [(stored_of_mem_numbered mem).fromRaw_toRaw]

theorem readBack_numbered (normalEntry : DirectoryEntryNormal) (number : UInt8)
    (parts : List (List Char)) :
    readBack normalEntry (numbered number parts) = (parts.map storedPart).flatten := by
  unfold readBack longEntriesNameMerge
  rw [List.map_reverse, List.reverse_reverse, map_name_fromRaw_numbered]

theorem length_flatten_map_le {α β : Type} {f : List α → List β} {parts : List (List α)}
    (shorter : ∀ part ∈ parts, (f part).length ≤ part.length) :
    ((parts.map f).flatten).length ≤ parts.flatten.length := by
  induction parts with
  | nil => exact le_rfl
  | cons part parts ih =>
    obtain ⟨here, rest⟩ := List.forall_mem_cons.mp shorter
    rw [List.map_cons, List.flatten_cons, List.flatten_cons, List.length_append, List.length_append]
    exact add_le_add here (ih rest)

/-- If no part becomes longer and the whole does not become shorter, no part does. -/
theorem length_eq_of_length_flatten {α β : Type} {f : List α → List β} {parts : List (List α)}
    (shorter : ∀ part ∈ parts, (f part).length ≤ part.length)
    (same : ((parts.map f).flatten).length = parts.flatten.length) :
    ∀ part ∈ parts, (f part).length = part.length := by
  induction parts with
  | nil => exact List.forall_mem_nil _
  | cons part parts ih =>
    obtain ⟨here, rest⟩ := List.forall_mem_cons.mp shorter
    have fewer := length_flatten_map_le rest
    rw [List.map_cons, List.flatten_cons, List.flatten_cons, List.length_append,
      List.length_append] at same
    exact List.forall_mem_cons.mpr ⟨by omega, ih rest (by omega)⟩

/-- The name is read back if it is not changed, and then each character is a unit. -/
theorem Cut.flatten_storedPart_iff (cut : Cut name parts) (noNul : Char.ofNat 0 ∉ name) :
    (parts.map storedPart).flatten = name ↔ ∀ c ∈ name, IsUnit c := by
  have whole := cut.flatten
  have short := cut.short
  subst whole
  constructor
  · intro same
    have lengths := length_eq_of_length_flatten
      (fun part mem => length_storedPart_le (short part mem)) (congrArg List.length same)
    intro c mem
    rw [← same] at mem
    obtain ⟨stored, inside, mem⟩ := List.mem_flatten.mp mem
    obtain ⟨part, within, rfl⟩ := List.mem_map.mp inside
    exact isUnit_of_length_storedPart (short part within) (lengths part within) c mem
  · intro units
    have kept : parts.map storedPart = parts.map id := by
      refine List.map_congr_left fun part mem => ?_
      exact storedPart_eq (short part mem)
        (fun nul => noNul (List.mem_flatten.mpr ⟨part, mem, nul⟩))
        fun c inside => units c (List.mem_flatten.mpr ⟨part, mem, inside⟩)
    rw [kept, List.map_id]

/-- A name without NUL is read back as it was exactly if it can be cut where the code cuts it and
all its characters are in the basic multilingual plane. -/
theorem name_roundTrips_iff {name : List Char} (noNul : Char.ofNat 0 ∉ name) (attributes : UInt8) :
    RoundTrips name attributes ↔ Cuttable name ∧ ∀ c ∈ name, IsUnit c := by
  unfold RoundTrips Cuttable
  rw [← exists_cut_iff, ← shortNameOf_returns_iff]
  constructor
  · rintro ⟨normalEntry, longEntries, created, read⟩
    obtain ⟨shortName, short, created⟩ := bind_eq_some.mp created
    obtain ⟨entries, made, created⟩ := bind_eq_some.mp created
    cases created
    obtain ⟨parts, cut⟩ := exists_cut_of_createLongEntries made
    rw [cut.createLongEntries le_rfl 1] at made
    cases made
    rw [readBack_numbered] at read
    exact ⟨⟨⟨parts, cut⟩, shortName, short⟩, (cut.flatten_storedPart_iff noNul).mp read⟩
  · rintro ⟨⟨⟨parts, cut⟩, shortName, short⟩, units⟩
    have created : createDirEntries name attributes =
        some (⟨shortName, fileAttributeToFat attributes, 0, 0, 0⟩, numbered 1 parts) := by
      unfold createDirEntries
      rw [short, cut.createLongEntries le_rfl 1]
      rfl
    refine ⟨_, _, created, ?_⟩
    rw [readBack_numbered]
    exact (cut.flatten_storedPart_iff noNul).mpr units

/-- A name with a character of two bytes at the end of its first part. -/
theorem roundTrips_accented : RoundTrips "abcdefghijké.txt".toList 0x20 := by
  have units := List.all_eq_true.mp (by decide : "abcdefghijké.txt".toList.all (IsUnit ·))
  refine (name_roundTrips_iff (by decide) 0x20).mpr
    ⟨⟨?_, by decide⟩, fun c within => of_decide_eq_true (units c within)⟩
  intro k inside
  have length : utf8Len "abcdefghijké.txt".toList = 17 := by decide
  match k with
  | 0 => exact isCharBoundary_zero _
  | 1 => decide
  | k + 2 => omega

/-- A character of two bytes across byte 13 or byte 6 makes `create_dir_entries` panic, and a
character outside the basic multilingual plane is read back as another one. -/
theorem name_not_read_back :
    createDirEntries "abcdefghijklé".toList 0x20 = none ∧
      createDirEntries "abcdeéfgh".toList 0x20 = none ∧
      ((createDirEntries "😀".toList 0x20).map fun entries => readBack entries.1 entries.2) =
        some [Char.ofNat 0xF600] := by
  refine ⟨Option.isNone_iff_eq_none.mp ?_, Option.isNone_iff_eq_none.mp ?_, ?_⟩
  all_goals decide +kernel

end Emerald.Fs
