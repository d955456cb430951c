
import Mathlib

/-!
# Maps with ordered keys

`alloc::collections::BTreeMap` with integer keys: the entries in ascending key order, which is
also the order every iteration over the map follows.
-/

namespace Emerald
variable {key k : Nat}

/-- A map from integer keys, as the list of its entries in strictly ascending key order. -/
structure SortedMap (β : Type) where
  entries : List (Nat × β)
  sorted : entries.Pairwise (fun a b => a.1 < b.1)
  deriving DecidableEq

namespace SortedMap
variable {β σ : Type}
variable {value : β} {l taken : List (Nat × β)} {entry : Nat × β}
  {visit : Nat → β → σ → Option (Bool × β × σ)} {state state' : σ}
variable {kept : List (Nat × β)}

@[ext] theorem ext {m m' : SortedMap β} (same : m.entries = m'.entries) : m = m' := by
  cases m; cases m'; simp_all

def empty : SortedMap β := ⟨[], List.Pairwise.nil⟩

variable (m : SortedMap β)

def get? (key : Nat) : Option β := m.entries.lookup key

def keys : List Nat := m.entries.map Prod.fst

def values : List β := m.entries.map Prod.snd

/-- Insertion into the entries; an entry with the same key is replaced. -/
def insertEntries (key : Nat) (value : β) : List (Nat × β) → List (Nat × β)
  | [] => [(key, value)]
  | entry :: rest =>
    if key < entry.1 then (key, value) :: entry :: rest
    else if key = entry.1 then (key, value) :: rest
    else entry :: insertEntries key value rest

theorem mem_insertEntries (mem : entry ∈ insertEntries key value l) :
    entry = (key, value) ∨ entry ∈ l := by
  induction l with
  | nil => simpa [insertEntries] using mem
  | cons head rest ih =>
    unfold insertEntries at mem
    split at mem
    · simpa using mem
    · split at mem
      · rcases List.mem_cons.mp mem with same | later
        · exact .inl same
        · exact .inr (List.mem_cons_of_mem _ later)
      · rcases List.mem_cons.mp mem with same | later
        · exact .inr (by simp [same])
        · rcases ih later with same | older
          · exact .inl same
          · exact .inr (List.mem_cons_of_mem _ older)

theorem sorted_insertEntries (sorted : l.Pairwise (fun a b => a.1 < b.1)) :
    (insertEntries key value l).Pairwise (fun a b => a.1 < b.1) := by
  induction l with
  | nil => simp [insertEntries]
  | cons head rest ih =>
    obtain ⟨below, ordered⟩ := List.pairwise_cons.mp sorted
    unfold insertEntries
    split
    · rename_i before
      refine List.pairwise_cons.mpr ⟨?_, sorted⟩
      intro entry mem
      rcases List.mem_cons.mp mem with rfl | later
      · exact before
      · exact lt_trans before (below entry later)
    · split
      · rename_i same
        refine List.pairwise_cons.mpr ⟨?_, ordered⟩
        intro entry mem
        simpa [same] using below entry mem
      · refine List.pairwise_cons.mpr ⟨?_, ih ordered⟩
        intro entry mem
        rcases mem_insertEntries mem with rfl | later
        · show head.1 < key
          omega
        · exact below entry later

/-- `BTreeMap::insert`. -/
def insert (key : Nat) (value : β) : SortedMap β :=
  ⟨insertEntries key value m.entries, sorted_insertEntries m.sorted⟩

/-- `BTreeMap::remove`, the map that is left. -/
def erase (key : Nat) : SortedMap β :=
  ⟨m.entries.filter (fun entry => entry.1 ≠ key), m.sorted.filter _⟩

theorem lookup_cons (k key : Nat) (value : β) (rest : List (Nat × β)) :
    ((key, value) :: rest).lookup k = if k = key then some value else rest.lookup k := by
  by_cases same : k = key
  · simp [same]
  · have differs : (k == key) = false := by simpa using same
    simp [List.lookup, same, differs]

theorem lookup_insertEntries (key k : Nat) (value : β) (l : List (Nat × β)) :
    (insertEntries key value l).lookup k = if k = key then some value else l.lookup k := by
  induction l with
  | nil => simp [insertEntries, lookup_cons]
  | cons head rest ih =>
    obtain ⟨headKey, headValue⟩ := head
    unfold insertEntries
    split
    · rw [lookup_cons]
    · split
      · by_cases same : k = key
        · simp [same]
        · have : k ≠ headKey := by omega
          simp [lookup_cons, this]
      · rename_i ne
        rw [lookup_cons, lookup_cons, ih]
        by_cases atHead : k = headKey
        · have : k ≠ key := by omega
          rw [if_pos atHead, if_neg this, if_pos atHead]
        · rw [if_neg atHead, if_neg atHead]

@[simp] theorem get?_empty (k : Nat) : (empty : SortedMap β).get? k = none := rfl

theorem get?_insert (key k : Nat) (value : β) :
    (m.insert key value).get? k = if k = key then some value else m.get? k :=
  lookup_insertEntries key k value m.entries

theorem lookup_filter_ne (key k : Nat) (l : List (Nat × β)) :
    (l.filter (fun entry => entry.1 ≠ key)).lookup k = if k = key then none else l.lookup k := by
  induction l with
  | nil => simp
  | cons head rest ih =>
    obtain ⟨headKey, headValue⟩ := head
    by_cases atKey : headKey = key
    · rw [List.filter_cons_of_neg (by simpa using atKey), ih, lookup_cons, atKey]
      by_cases same : k = key
      · rw [if_pos same, if_pos same]
      · rw [if_neg same, if_neg same, if_neg same]
    · rw [List.filter_cons_of_pos (by simpa using atKey), lookup_cons, ih, lookup_cons]
      by_cases same : k = headKey
      · have : k ≠ key := by omega
        rw [if_pos same, if_neg this, if_pos same]
      · rw [if_neg same, if_neg same]

theorem get?_erase (key k : Nat) : (m.erase key).get? k = if k = key then none else m.get? k :=
  lookup_filter_ne key k m.entries

theorem get?_erase_eq_some {m : SortedMap β} {key k : Nat} {v : β} :
    (m.erase key).get? k = some v ↔ k ≠ key ∧ m.get? k = some v := by
  rw [get?_erase, Option.ite_none_left_eq_some]

theorem lookup_eq_some_iff (sorted : l.Pairwise (fun a b => a.1 < b.1)) {v : β} :
    l.lookup k = some v ↔ (k, v) ∈ l := by
  induction l with
  | nil => simp
  | cons head rest ih =>
    obtain ⟨headKey, headValue⟩ := head
    obtain ⟨below, ordered⟩ := List.pairwise_cons.mp sorted
    by_cases same : k = headKey
    · subst k
      simp only [lookup_cons, if_true, List.mem_cons, Prod.mk.injEq, true_and, Option.some.injEq]
      constructor
      · exact fun equal => .inl equal.symm
      · rintro (equal | later)
        · exact equal.symm
        · exact absurd (below _ later) (lt_irrefl _)
    · simp [lookup_cons, same, ih ordered]

section
variable (m : SortedMap β)

theorem get?_eq_some_iff {v : β} : m.get? k = some v ↔ (k, v) ∈ m.entries :=
  lookup_eq_some_iff m.sorted

theorem get?_eq_none_iff : m.get? k = none ↔ k ∉ m.keys := by
  rw [Option.eq_none_iff_forall_ne_some]
  simp only [ne_eq, get?_eq_some_iff, keys, List.mem_map, not_exists, not_and]
  constructor
  · rintro absent ⟨key, value⟩ mem rfl
    exact absent value mem
  · intro absent value mem
    exact absent (k, value) mem rfl

theorem mem_entries_insert :
    entry ∈ (m.insert key value).entries ↔
      entry = (key, value) ∨ (entry.1 ≠ key ∧ entry ∈ m.entries) := by
  obtain ⟨k, v⟩ := entry
  rw [← get?_eq_some_iff, get?_insert, ← get?_eq_some_iff]
  by_cases same : k = key
  · simp [same, eq_comm]
  · simp [same]

theorem mem_entries_erase : entry ∈ (m.erase key).entries ↔ entry.1 ≠ key ∧ entry ∈ m.entries := by
  simp [erase, and_comm]

theorem keys_nodup : m.keys.Nodup := by
  refine List.Pairwise.map _ ?_ m.sorted
  intro a b below
  exact ne_of_lt below

end

/-- A map is determined by its lookups. -/
theorem eq_of_get? {m m' : SortedMap β} (same : ∀ k, m.get? k = m'.get? k) : m = m' := by
  have members : ∀ entry, entry ∈ m.entries ↔ entry ∈ m'.entries := by
    rintro ⟨k, v⟩
    rw [← get?_eq_some_iff, ← get?_eq_some_iff, same]
  have distinct : ∀ n : SortedMap β, n.entries.Nodup := by
    intro n
    exact List.Nodup.of_map _ n.keys_nodup
  have perm := (List.perm_ext_iff_of_nodup (distinct m) (distinct m')).mpr members
  apply ext
  refine perm.eq_of_pairwise ?_ m.sorted m'.sorted
  intro a b _ _ below above
  exact absurd below (by omega)

/-- An entry and the map without it are the map. -/
theorem perm_erase (present : m.get? key = some value) :
    m.entries.Perm ((key, value) :: (m.erase key).entries) := by
  have mem := m.get?_eq_some_iff.mp present
  obtain ⟨pre, post, split⟩ := List.append_of_mem mem
  have sorted := m.sorted
  rw [split] at sorted
  obtain ⟨-, right, across⟩ := List.pairwise_append.mp sorted
  have above := (List.pairwise_cons.mp right).1
  have left : (m.erase key).entries = pre ++ post := by
    show m.entries.filter _ = _
    rw [split, List.filter_append, List.filter_cons_of_neg (by simp),
      List.filter_eq_self.mpr, List.filter_eq_self.mpr]
    · intro entry later
      have := above entry later
      simp only [decide_eq_true_eq]
      omega
    · intro entry earlier
      have := across entry earlier (key, value) (by simp)
      simp only [decide_eq_true_eq]
      omega
  rw [left, split]
  exact List.perm_middle

theorem erase_of_get?_none (absent : m.get? key = none) : m.erase key = m := by
  apply eq_of_get?
  intro k
  rw [get?_erase]
  split
  · rename_i same
    rw [same, absent]
  · rfl

theorem get?_insert_self (key : Nat) (value : β) : (m.insert key value).get? key = some value := by
  rw [get?_insert, if_pos rfl]

/-- Whatever the key had before, the rest of the map is as if it was removed. -/
theorem perm_insert (key : Nat) (value : β) :
    (m.insert key value).entries.Perm ((key, value) :: (m.erase key).entries) := by
  have rest : (m.insert key value).erase key = m.erase key := by
    apply eq_of_get?
    intro k
    rw [get?_erase, get?_erase, get?_insert]
    split <;> rfl
  have split := (m.insert key value).perm_erase (m.get?_insert_self key value)
  rwa [rest] at split

/-! ## `extract_if` -/

/-- The entries visited in order by a closure that may change the value, decide to extract it and
change a state it has captured; `none` is a panic. The state, what stays and what is taken. -/
def extractEntries (visit : Nat → β → σ → Option (Bool × β × σ)) :
    σ → List (Nat × β) → Option (σ × List (Nat × β) × List (Nat × β))
  | state, [] => some (state, [], [])
  | state, (key, value) :: rest =>
    match visit key value state with
    | none => none
    | some (take, value, state) =>
      match extractEntries visit state rest with
      | none => none
      | some (state, kept, taken) =>
        if take then some (state, kept, (key, value) :: taken)
        else some (state, (key, value) :: kept, taken)

theorem extractEntries_cons {rest : List (Nat × β)}
    (done : extractEntries visit state ((key, value) :: rest) = some (state', kept, taken)) :
    ∃ take value' mid kept' taken', visit key value state = some (take, value', mid) ∧
      extractEntries visit mid rest = some (state', kept', taken') ∧
      kept = (if take then kept' else (key, value') :: kept') ∧
      taken = (if take then (key, value') :: taken' else taken') := by
  simp only [extractEntries] at done
  split at done
  · simp at done
  · rename_i take value' mid visited
    split at done
    · simp at done
    · rename_i last kept' taken' tail
      refine ⟨take, value', mid, kept', taken', visited, ?_, ?_⟩
      · cases take <;> simp_all
      · cases take <;> simp_all

theorem extractEntries_keys (done : extractEntries visit state l = some (state', kept, taken)) :
    (kept.map Prod.fst).Sublist (l.map Prod.fst) := by
  induction l generalizing state kept taken with
  | nil =>
    simp only [extractEntries, Option.some.injEq, Prod.mk.injEq] at done
    simp [← done.2.1]
  | cons head rest ih =>
    obtain ⟨take, value', mid, kept', taken', -, tail, rfl, -⟩ := extractEntries_cons done
    cases take with
    | true => simpa using (ih tail).cons _
    | false => simpa using (ih tail)

theorem sorted_of_keys (ordered : (l.map Prod.fst).Pairwise (· < ·)) :
    l.Pairwise (fun a b => a.1 < b.1) :=
  List.pairwise_map.mp ordered

theorem extractEntries_sorted (sorted : l.Pairwise (fun a b => a.1 < b.1))
    (done : extractEntries visit state l = some (state', kept, taken)) :
    kept.Pairwise (fun a b => a.1 < b.1) :=
  sorted_of_keys ((List.pairwise_map.mpr sorted).sublist (extractEntries_keys done))

/-- `BTreeMap::extract_if`, run to its end. -/
def extractIf (visit : Nat → β → σ → Option (Bool × β × σ)) (state : σ) (m : SortedMap β) :
    Option (σ × SortedMap β × List (Nat × β)) :=
  match done : extractEntries visit state m.entries with
  | none => none
  | some (state', kept, taken) => some (state', ⟨kept, extractEntries_sorted m.sorted done⟩, taken)

theorem extractIf_eq_some {m kept : SortedMap β} :
    extractIf visit state m = some (state', kept, taken) ↔
      extractEntries visit state m.entries = some (state', kept.entries, taken) := by
  unfold extractIf
  split
  · simp_all
  · rename_i last left right done
    simp only [done, Option.some.injEq, Prod.mk.injEq]
    constructor
    · rintro ⟨rfl, rfl, rfl⟩
      exact ⟨rfl, rfl, rfl⟩
    · rintro ⟨rfl, same, rfl⟩
      exact ⟨rfl, ext same, rfl⟩

theorem extractIf_isSome {m : SortedMap β} (done : (extractEntries visit state m.entries).isSome) :
    (extractIf visit state m).isSome := by
  unfold extractIf
  split
  · simp_all
  · rfl

end SortedMap

end Emerald
