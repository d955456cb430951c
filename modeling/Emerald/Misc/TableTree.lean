
import Mathlib

/-!
# Trees of tables in a memory

A memory gives each node a table of entries, and an entry may lead to a node one level below. A
path is the list of the indices that lead from the root to a node or an entry, the last one first.
-/

namespace Emerald
variable {i : Nat} {path : List Nat}

section
variable {ν ε : Type} (child : ε → Option ν)
variable {n : ν}

/-- The node at the end of a path. -/
def nodeAt (memory : ν → Nat → ε) (root : ν) : List Nat → Option ν
  | [] => some root
  | i :: path => (nodeAt memory root path).bind (fun n => child (memory n i))

/-- The entry a nonempty path ends at. -/
def entryAt (memory : ν → Nat → ε) (root : ν) : List Nat → Option ε
  | [] => none
  | i :: path => (nodeAt child memory root path).map (fun n => memory n i)

/-- Down to depth `d` no node is at the end of two paths. -/
def Unshared (d : Nat) (memory : ν → Nat → ε) (root : ν) : Prop :=
  ∀ p q n, p.length ≤ d → q.length ≤ d → nodeAt child memory root p = some n →
    nodeAt child memory root q = some n → p = q

variable {child} {memory memory' : ν → Nat → ε} {root root' fresh : ν} {d : Nat} {q : List Nat}

theorem nodeAt_cons (i : Nat) (path : List Nat) :
    nodeAt child memory root (i :: path) =
      (entryAt child memory root (i :: path)).bind child := by
  simp only [nodeAt, entryAt]
  cases nodeAt child memory root path <;> rfl

theorem entryAt_of_nodeAt (here : nodeAt child memory root path = some n) :
    entryAt child memory root (i :: path) = some (memory n i) := by
  simp [entryAt, here]

theorem nodeAt_tail (here : nodeAt child memory root (i :: path) = some n) :
    ∃ m, nodeAt child memory root path = some m ∧ child (memory m i) = some n :=
  Option.bind_eq_some_iff.mp here

section
variable (above : nodeAt child memory' root' q = nodeAt child memory root q)
include above

/-- One step further: two memories that agree on a node and on what its entry leads to. -/
theorem nodeAt_step (same : ∀ n, nodeAt child memory root q = some n →
      child (memory' n i) = child (memory n i)) :
    nodeAt child memory' root' (i :: q) = nodeAt child memory root (i :: q) := by
  simp only [nodeAt, above]
  cases here : nodeAt child memory root q with
  | none => rfl
  | some n => exact same n here

theorem entryAt_step (same : ∀ n, nodeAt child memory root q = some n → memory' n i = memory n i) :
    entryAt child memory' root' (i :: q) = entryAt child memory root (i :: q) := by
  simp only [entryAt, above]
  cases here : nodeAt child memory root q with
  | none => rfl
  | some n => exact congrArg some (same n here)

end

/-- Writes that lead nowhere else at the nodes above depth `d` leave the nodes where they are. -/
theorem nodeAt_congr (same : ∀ q n i, q.length < d → nodeAt child memory root q = some n →
      child (memory' n i) = child (memory n i)) :
    ∀ q, q.length ≤ d → nodeAt child memory' root q = nodeAt child memory root q := by
  intro q
  induction q with
  | nil => exact fun _ => rfl
  | cons i path ih =>
    intro short
    have short' : path.length < d := short
    exact nodeAt_step (ih (le_of_lt short')) (fun n here => same path n i short' here)

/-- Writes outside the nodes down to depth `d` change no entry of theirs. -/
theorem entryAt_frame (same : ∀ q n i, q.length ≤ d → nodeAt child memory root q = some n →
      memory' n i = memory n i) :
    ∀ q, q.length ≤ d + 1 → entryAt child memory' root q = entryAt child memory root q := by
  intro q short
  cases q with
  | nil => rfl
  | cons i path =>
    have short' : path.length ≤ d := Nat.le_of_succ_le_succ short
    refine entryAt_step (nodeAt_congr (fun q n i less here => ?_) path short')
      (fun n here => same path n i short' here)
    rw [same q n i (le_of_lt less) here]

/-- A node is where its entry leads to. -/
theorem nodeAt_eq_some_iff :
    nodeAt child memory root (i :: path) = some n ↔
      ∃ e, entryAt child memory root (i :: path) = some e ∧ child e = some n := by
  rw [nodeAt_cons, Option.bind_eq_some_iff]

/-- Entries that lead where they led or nowhere: nodes can only be lost. -/
theorem nodeAt_of_fewer
    (fewer : ∀ n i, child (memory' n i) = none ∨ child (memory' n i) = child (memory n i)) :
    ∀ q n, nodeAt child memory' root q = some n → nodeAt child memory root q = some n := by
  intro q
  induction q with
  | nil => exact fun _ here => here
  | cons i path ih =>
    intro n here
    obtain ⟨m, before, leads⟩ := nodeAt_tail here
    rw [nodeAt, ih m before]
    rcases fewer m i with none | same
    · rw [none] at leads
      cases leads
    · exact same.symm.trans leads

theorem Unshared.congr (unshared : Unshared child d memory root)
    (same : ∀ q n i, q.length < d → nodeAt child memory root q = some n →
      child (memory' n i) = child (memory n i)) : Unshared child d memory' root := by
  intro p q n shortP shortQ atP atQ
  rw [nodeAt_congr same p shortP] at atP
  rw [nodeAt_congr same q shortQ] at atQ
  exact unshared p q n shortP shortQ atP atQ

/-- A new node hung below an entry that led nowhere: the one change of the nodes. -/
structure Links (child : ε → Option ν) (d : Nat) (memory memory' : ν → Nat → ε) (root : ν)
    (path : List Nat) (i : Nat) (n fresh : ν) : Prop where
  short : path.length < d
  parent : nodeAt child memory root path = some n
  free : child (memory n i) = none
  unused : ∀ q, q.length ≤ d → nodeAt child memory root q ≠ some fresh
  linked : child (memory' n i) = some fresh
  others : ∀ m j, m ≠ fresh → ¬ (m = n ∧ j = i) → child (memory' m j) = child (memory m j)
  empty : ∀ j, child (memory' fresh j) = none

theorem Links.nodeAt_eq (links : Links child d memory memory' root path i n fresh)
    (unshared : Unshared child d memory root) :
    ∀ q, q.length ≤ d → nodeAt child memory' root q =
      if q = i :: path then some fresh else nodeAt child memory root q := by
  intro q
  induction q with
  | nil => exact fun _ => rfl
  | cons j q ih =>
    intro short
    have short' : q.length < d := short
    simp only [nodeAt, ih (le_of_lt short')]
    by_cases below : q = i :: path
    · -- below the new node there is nothing, neither now nor before
      have deeper : j :: q ≠ i :: path := by
        rw [below]
        intro equal
        have := congrArg List.length equal
        simp at this
      have nothing : nodeAt child memory root q = none := by
        rw [below]
        simp [nodeAt, links.parent, links.free]
      rw [if_pos below, if_neg deeper, nothing]
      exact links.empty j
    · rw [if_neg below]
      cases here : nodeAt child memory root q with
      | none =>
        have elsewhere : j :: q ≠ i :: path := by
          intro equal
          rw [(List.cons.inj equal).2, links.parent] at here
          simp at here
        rw [if_neg elsewhere]
        rfl
      | some m =>
        show child (memory' m j) = _
        by_cases target : m = n ∧ j = i
        · obtain ⟨rfl, rfl⟩ := target
          have same := unshared q path m (le_of_lt short') (le_of_lt links.short) here
            links.parent
          rw [same, if_pos rfl, links.linked]
        · have elsewhere : j :: q ≠ i :: path := by
            intro equal
            obtain ⟨rfl, rfl⟩ := List.cons.inj equal
            rw [links.parent] at here
            exact target ⟨(Option.some.inj here).symm, rfl⟩
          have known : m ≠ fresh := by
            rintro rfl
            exact links.unused q (le_of_lt short') here
          rw [if_neg elsewhere, links.others m j known target]
          rfl

theorem Links.unshared (links : Links child d memory memory' root path i n fresh)
    (unshared : Unshared child d memory root) : Unshared child d memory' root := by
  intro p q m shortP shortQ atP atQ
  rw [links.nodeAt_eq unshared p shortP] at atP
  rw [links.nodeAt_eq unshared q shortQ] at atQ
  split at atP
  · rename_i isNew
    split at atQ
    · rename_i isNew'
      rw [isNew, isNew']
    · rw [← Option.some.inj atP] at atQ
      exact absurd atQ (links.unused q shortQ)
  · split at atQ
    · rw [← Option.some.inj atQ] at atP
      exact absurd atP (links.unused p shortP)
    · exact unshared p q m shortP shortQ atP atQ

end

end Emerald
