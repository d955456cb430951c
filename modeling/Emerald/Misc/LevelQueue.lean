
import Mathlib

/-!
# Queues served by level

Entries wait with a level each. One of highest level is taken, and the level that new entries get
falls below the level of the one taken, by at most the spread. When all levels are below the floor
they restart from the top. The levels then stay within the spread of each other, and no key is
overtaken by another one more than `spread + 1` times.
-/

namespace Emerald

structure LevelQueue (κ : Type) where
  entries : List (κ × Nat)
  /-- The level of an entry that joins. -/
  level : Nat

namespace LevelQueue

structure Limits where
  spread : Nat
  floor : Nat
  top : Nat
  spread_le : spread ≤ floor
  floor_le : floor ≤ top

variable {κ : Type} {l : Limits}
variable {taken : List κ} {entries rest : List (κ × Nat)}

/-- One move, with the keys it takes. -/
inductive Move (l : Limits) (q : LevelQueue κ) : List κ → LevelQueue κ → Prop
  | join (keys : List κ) (entries : List (κ × Nat))
      (joined : entries.Perm (keys.map (·, q.level) ++ q.entries))
      (distinct : (entries.map Prod.fst).Nodup) : Move l q [] ⟨entries, q.level⟩
  | take (key : κ) (level fall : Nat) (rest : List (κ × Nat))
      (split : q.entries.Perm ((key, level) :: rest)) (highest : ∀ e ∈ rest, e.2 ≤ level)
      (enough : l.floor ≤ level) (falls : 1 ≤ fall) (small : fall ≤ l.spread) :
      Move l q [key] ⟨rest, level - fall⟩
  | restart (key : κ) (fall : Nat) (entries : List (κ × Nat))
      (keys : (q.entries.map Prod.fst).Perm (key :: entries.map Prod.fst))
      (atTop : ∀ e ∈ entries, e.2 = l.top) (low : ∀ e ∈ q.entries, e.2 < l.floor)
      (falls : 1 ≤ fall) (small : fall ≤ l.spread) : Move l q [key] ⟨entries, l.top - fall⟩

/-- A run, with the keys it takes in order. -/
inductive Path (l : Limits) : LevelQueue κ → List κ → LevelQueue κ → Prop
  | refl (q : LevelQueue κ) : Path l q [] q
  | step {q r s : LevelQueue κ} {taken later : List κ} (move : Move l q taken r)
      (path : Path l r later s) : Path l q (taken ++ later) s

variable {q r : LevelQueue κ} {level : Nat}

theorem Path.single (move : Move l q taken r) : Path l q taken r := by
  simpa using Path.step move (.refl r)

theorem Path.trans {s : LevelQueue κ} {later : List κ} (first : Path l q taken r)
    (second : Path l r later s) : Path l q (taken ++ later) s := by
  induction first with
  | refl q => exact second
  | step move path ih =>
    rw [List.append_assoc]
    exact .step move (ih second)

/-- The levels that are in use. -/
def levels (q : LevelQueue κ) : List Nat := q.level :: q.entries.map Prod.snd

theorem mem_levels_of_entry {e : κ × Nat} (mem : e ∈ q.entries) : e.2 ∈ q.levels :=
  List.mem_cons_of_mem _ (List.mem_map_of_mem mem)

/-! ## The levels stay close -/

structure Fair (l : Limits) (q : LevelQueue κ) : Prop where
  distinct : (q.entries.map Prod.fst).Nodup
  above : ∀ a ∈ q.levels, l.floor ≤ a + l.spread
  close : ∀ a ∈ q.levels, ∀ b ∈ q.levels, a ≤ b + l.spread

/-- All levels in a window below one that is not under the floor. -/
theorem fair_of_window (distinct : (q.entries.map Prod.fst).Nodup)
    (enough : l.floor ≤ level) (window : ∀ a ∈ q.levels, a ≤ level ∧ level ≤ a + l.spread) :
    Fair l q := by
  refine ⟨distinct, ?_, ?_⟩
  · intro a mem
    exact le_trans enough (window a mem).2
  · intro a first b second
    exact le_trans (window a first).1 (window b second).2

theorem Fair.join {keys : List κ} (fair : Fair l q)
    (joined : entries.Perm (keys.map (·, q.level) ++ q.entries))
    (distinct : (entries.map Prod.fst).Nodup) : Fair l ⟨entries, q.level⟩ := by
  have inside : ∀ a ∈ levels ⟨entries, q.level⟩, a ∈ q.levels := by
    intro a mem
    cases List.mem_cons.mp mem with
    | inl same => exact same ▸ List.mem_cons_self
    | inr waits =>
      obtain ⟨e, present, rfl⟩ := List.mem_map.mp waits
      cases List.mem_append.mp (joined.mem_iff.mp present) with
      | inl new =>
        obtain ⟨key, -, rfl⟩ := List.mem_map.mp new
        exact List.mem_cons_self
      | inr old => exact mem_levels_of_entry old
  exact ⟨distinct, fun a mem => fair.above a (inside a mem),
    fun a first b second => fair.close a (inside a first) b (inside b second)⟩

/-- The keys left are distinct and none of them is the one taken. -/
theorem distinct_of_split {key : κ} (distinct : (entries.map Prod.fst).Nodup)
    (split : entries.Perm ((key, level) :: rest)) :
    key ∉ rest.map Prod.fst ∧ (rest.map Prod.fst).Nodup :=
  List.nodup_cons.mp ((split.map Prod.fst).nodup_iff.mp distinct)

theorem Fair.move (fair : Fair l q) (move : Move l q taken r) : Fair l r := by
  cases move with
  | join keys entries joined distinct => exact fair.join joined distinct
  | take key level fall rest split highest enough falls small =>
    refine fair_of_window (distinct_of_split fair.distinct split).2 enough ?_
    intro a mem
    cases List.mem_cons.mp mem with
    | inl same =>
      have lowered : a = level - fall := same
      omega
    | inr waits =>
      obtain ⟨e, present, rfl⟩ := List.mem_map.mp waits
      have old : e ∈ q.entries := split.mem_iff.mpr (List.mem_cons_of_mem _ present)
      have top : (key, level) ∈ q.entries := split.mem_iff.mpr List.mem_cons_self
      exact ⟨highest e present, fair.close _ (mem_levels_of_entry top) _ (mem_levels_of_entry old)⟩
  | restart key fall entries keys atTop low falls small =>
    refine fair_of_window (List.nodup_cons.mp (keys.nodup_iff.mp fair.distinct)).2 l.floor_le ?_
    intro a mem
    cases List.mem_cons.mp mem with
    | inl same =>
      have lowered : a = l.top - fall := same
      omega
    | inr waits =>
      obtain ⟨e, present, rfl⟩ := List.mem_map.mp waits
      have restarted := atTop e present
      omega

theorem Fair.path (fair : Fair l q) (path : Path l q taken r) : Fair l r := by
  induction path with
  | refl q => exact fair
  | step move _ ih => exact ih (fair.move move)

/-! ## Overtaking -/

/-- While `key` waits, `other` can be taken at most `n` more times: it only waits at levels up to
`bound`, and each time it is taken that bound falls. -/
structure Overtakes (key other : κ) (n bound own : Nat) (l : Limits) (q : LevelQueue κ) : Prop where
  waits : (key, own) ∈ q.entries
  below : ∀ e ∈ q.entries, e.2 ≤ bound + 1
  level : q.level ≤ bound
  other : ∀ e ∈ q.entries, e.1 = other → e.2 ≤ bound
  enough : l.floor ≤ bound + 1
  left : bound + 1 ≤ own + n

section
variable {key other : κ} {n bound own : Nat} {q r : LevelQueue κ}

theorem Fair.overtakes (fair : Fair l q) (waits : (key, own) ∈ q.entries) :
    Overtakes key other (l.spread + 1) (own + l.spread) own l q := by
  have ownLevel := mem_levels_of_entry waits
  have below : ∀ e ∈ q.entries, e.2 ≤ own + l.spread := fun e mem =>
    fair.close _ (mem_levels_of_entry mem) _ ownLevel
  refine ⟨waits, fun e mem => Nat.le_succ_of_le (below e mem), ?_,
    fun e mem _ => below e mem, ?_, le_rfl⟩
  · exact fair.close _ List.mem_cons_self _ ownLevel
  · exact Nat.le_succ_of_le (fair.above _ ownLevel)

theorem Overtakes.join {keys : List κ} (bounded : Overtakes key other n bound own l q)
    (joined : entries.Perm (keys.map (·, q.level) ++ q.entries)) :
    Overtakes key other n bound own l ⟨entries, q.level⟩ := by
  have split : ∀ e ∈ entries, e.2 ≤ bound ∨ e ∈ q.entries := by
    intro e mem
    cases List.mem_append.mp (joined.mem_iff.mp mem) with
    | inl new =>
      obtain ⟨k, -, rfl⟩ := List.mem_map.mp new
      exact .inl bounded.level
    | inr old => exact .inr old
  refine ⟨joined.mem_iff.mpr (List.mem_append_right _ bounded.waits), ?_, bounded.level, ?_,
    bounded.enough, bounded.left⟩
  · intro e mem
    cases split e mem with
    | inl low => exact Nat.le_succ_of_le low
    | inr old => exact bounded.below e old
  · intro e mem isOther
    cases split e mem with
    | inl low => exact low
    | inr old => exact bounded.other e old isOther

/-- The one that waits is still there when another one is taken. -/
theorem mem_rest_of_ne {k : κ} (split : q.entries.Perm ((k, level) :: rest))
    (waits : (key, own) ∈ q.entries) (apart : key ≠ k) : (key, own) ∈ rest := by
  cases List.mem_cons.mp (split.mem_iff.mp waits) with
  | inl same => exact absurd (congrArg Prod.fst same) apart
  | inr present => exact present

variable [DecidableEq κ]

section
variable (bounded : Overtakes key other n bound own l q) {fall : Nat}
include bounded

theorem Overtakes.take {k : κ} (fair : Fair l q)
    (split : q.entries.Perm ((k, level) :: rest)) (highest : ∀ e ∈ rest, e.2 ≤ level)
    (enough : l.floor ≤ level) (falls : 1 ≤ fall) (small : fall ≤ l.spread) (apart : key ≠ k) :
    ∃ n' bound', [k].count other + n' ≤ n ∧
      Overtakes key other n' bound' own l ⟨rest, level - fall⟩ := by
  have waits := mem_rest_of_ne split bounded.waits apart
  have ownLevel : own ≤ level := highest _ waits
  have old : ∀ e ∈ rest, e ∈ q.entries := fun e mem =>
    split.mem_iff.mpr (List.mem_cons_of_mem _ mem)
  have top : (k, level) ∈ q.entries := split.mem_iff.mpr List.mem_cons_self
  have topLevel := bounded.below _ top
  have spreadLe := l.spread_le
  have left := bounded.left
  by_cases same : k = other
  · -- the bound falls below the level it was taken at
    have levelBound : level ≤ bound := bounded.other _ top same
    have gone := (distinct_of_split fair.distinct split).1
    refine ⟨n - 1, level - 1, ?_, waits, ?_, ?_, ?_, by omega, by omega⟩
    · simp only [same, List.count_singleton_self]
      omega
    · intro e mem
      exact le_trans (highest e mem) (by omega)
    · show level - fall ≤ level - 1
      omega
    · intro e mem isOther
      exact absurd (List.mem_map.mpr ⟨e, mem, isOther.trans same.symm⟩) gone
  · refine ⟨n, bound, ?_, waits, fun e mem => bounded.below e (old e mem), ?_,
      fun e mem => bounded.other e (old e mem), bounded.enough, left⟩
    · simp [same]
    · show level - fall ≤ bound
      omega

theorem Overtakes.restart {k : κ} (fair : Fair l q)
    (keys : (q.entries.map Prod.fst).Perm (k :: entries.map Prod.fst))
    (atTop : ∀ e ∈ entries, e.2 = l.top) (low : ∀ e ∈ q.entries, e.2 < l.floor) (falls : 1 ≤ fall)
    (small : fall ≤ l.spread) (apart : key ≠ k) :
    ∃ n' bound', [k].count other + n' ≤ n ∧
      Overtakes key other n' bound' l.top l ⟨entries, l.top - fall⟩ := by
  have waits : (key, l.top) ∈ entries := by
    have present := keys.mem_iff.mp (List.mem_map_of_mem bounded.waits)
    obtain ⟨e, mem, same⟩ := List.mem_map.mp (List.mem_of_ne_of_mem apart present)
    rw [← same, ← atTop e mem]
    exact mem
  have some_left : 1 ≤ n := by
    have ownLow := low _ bounded.waits
    have enough := bounded.enough
    have left := bounded.left
    omega
  have topLe := l.floor_le
  have spreadLe := l.spread_le
  by_cases same : k = other
  · have gone := (List.nodup_cons.mp (keys.nodup_iff.mp fair.distinct)).1
    refine ⟨n - 1, l.top - 1, ?_, waits, ?_, ?_, ?_, by omega, by omega⟩
    · simp only [same, List.count_singleton_self]
      omega
    · intro e mem
      have restarted := atTop e mem
      omega
    · show l.top - fall ≤ l.top - 1
      omega
    · intro e mem isOther
      exact absurd (List.mem_map.mpr ⟨e, mem, isOther.trans same.symm⟩) gone
  · refine ⟨n, l.top, ?_, waits, ?_, Nat.sub_le _ _, ?_, by omega, by omega⟩
    · simp [same]
    · intro e mem
      exact Nat.le_succ_of_le (Nat.le_of_eq (atTop e mem))
    · intro e mem _
      exact Nat.le_of_eq (atTop e mem)

theorem Overtakes.move (fair : Fair l q) (move : Move l q taken r) (apart : key ∉ taken) :
    ∃ n' bound' own', taken.count other + n' ≤ n ∧
      Overtakes key other n' bound' own' l r := by
  cases move with
  | join keys entries joined distinct =>
    exact ⟨n, bound, own, by simp, bounded.join joined⟩
  | take k level fall rest split highest enough falls small =>
    obtain ⟨n', bound', count, after⟩ := bounded.take fair split highest enough falls small
      (List.ne_of_not_mem_cons apart)
    exact ⟨n', bound', own, count, after⟩
  | restart k fall entries keys atTop low falls small =>
    obtain ⟨n', bound', count, after⟩ := bounded.restart fair keys atTop low falls small
      (List.ne_of_not_mem_cons apart)
    exact ⟨n', bound', l.top, count, after⟩

theorem Overtakes.path (fair : Fair l q) (path : Path l q taken r) (apart : key ∉ taken) :
    taken.count other ≤ n := by
  induction path generalizing n bound own with
  | refl q => simp
  | step move _ ih =>
    rw [List.mem_append, not_or] at apart
    obtain ⟨n', bound', own', count, after⟩ := bounded.move fair move apart.1
    have later := ih after (fair.move move) apart.2
    rw [List.count_append]
    omega

end

/-- While a key waits, no other one is taken more than `spread + 1` times. -/
theorem Fair.count_le (fair : Fair l q) (waits : (key, own) ∈ q.entries) (path : Path l q taken r)
    (apart : key ∉ taken) : taken.count other ≤ l.spread + 1 :=
  (fair.overtakes waits).path fair path apart

end

end LevelQueue

end Emerald
