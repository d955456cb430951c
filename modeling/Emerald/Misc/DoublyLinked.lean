
import Mathlib

/-!
# Doubly linked lists in a memory

A memory gives each node, a nonzero number, the node before it and the node after it; zero stands
for no node. `Linked` says that the nodes of a list are linked in its order, and `Linked.splice` is
the rule for all changes of such a list: some nodes in the middle are replaced by others, and the
nodes on both sides are linked to them.
-/

namespace Emerald
variable {mid : List Nat}

section
variable {μ : Type} (prev next : μ → Nat → Nat) {nodes : List Nat}

/-- The nodes from `first` on, which comes after the node `before`. The last one of them is `last`,
and `after` comes next. -/
def Segment (m : μ) : Nat → Nat → List Nat → Nat → Nat → Prop
  | before, first, [], last, after => first = after ∧ last = before
  | before, first, node :: rest, last, after =>
    first = node ∧ node ≠ 0 ∧ prev m node = before ∧
      Segment m node (next m node) rest last after

/-- The whole list. -/
def Linked (m : μ) (first : Nat) (nodes : List Nat) : Prop :=
  ∃ last, Segment prev next m 0 first nodes last 0

/-- The first node, or none. -/
def firstOf (nodes : List Nat) : Nat := nodes.head?.getD 0

/-- The last node, or none. -/
def lastOf (nodes : List Nat) : Nat := nodes.getLast?.getD 0

theorem lastOf_concat (nodes : List Nat) (node : Nat) : lastOf (nodes ++ [node]) = node := by
  simp [lastOf]

theorem lastOf_mem (nonempty : nodes ≠ []) : lastOf nodes ∈ nodes := by
  rw [lastOf, List.getLast?_eq_some_getLast nonempty]
  exact List.getLast_mem nonempty

theorem firstOf_mem (nonempty : nodes ≠ []) : firstOf nodes ∈ nodes := by
  cases nodes with
  | nil => exact absurd rfl nonempty
  | cons node rest => simp [firstOf]

variable {prev next} {m m' : μ} {before first last after node : Nat} {xs ys : List Nat}

theorem segment_append :
    Segment prev next m before first (xs ++ ys) last after ↔
      ∃ mid node, Segment prev next m before first xs mid node ∧
        Segment prev next m mid node ys last after := by
  induction xs generalizing before first with
  | nil =>
    constructor
    · exact fun segment => ⟨before, first, ⟨rfl, rfl⟩, segment⟩
    · rintro ⟨mid, node, ⟨rfl, rfl⟩, segment⟩
      exact segment
  | cons x xs ih =>
    simp only [List.cons_append, Segment, ih]
    constructor
    · rintro ⟨here, nonzero, back, mid, node, front, rest⟩
      exact ⟨mid, node, ⟨here, nonzero, back, front⟩, rest⟩
    · rintro ⟨mid, node, ⟨here, nonzero, back, front⟩, rest⟩
      exact ⟨here, nonzero, back, mid, node, front, rest⟩

section
variable (segment : Segment prev next m before first xs last after)
include segment

theorem Segment.last_eq : last = xs.getLast?.getD before := by
  induction xs generalizing before first with
  | nil => exact segment.2
  | cons x xs ih =>
    rw [ih segment.2.2.2]
    cases xs <;> simp [List.getLast?_cons]

theorem Segment.first_eq : first = xs.head?.getD after := by
  cases xs with
  | nil => exact segment.1
  | cons x xs => exact segment.1

theorem Segment.ne_zero : ∀ node ∈ xs, node ≠ 0 := by
  induction xs generalizing before first with
  | nil => simp
  | cons x xs ih =>
    intro node mem
    rcases List.mem_cons.mp mem with rfl | later
    · exact segment.2.1
    · exact ih segment.2.2.2 node later

theorem Segment.last_mem (nonempty : xs ≠ []) : last ∈ xs := by
  rw [segment.last_eq, List.getLast?_eq_some_getLast nonempty]
  exact List.getLast_mem nonempty

/-- The links of a segment are those of its nodes. -/
theorem Segment.congr (prevs : ∀ x ∈ xs, prev m' x = prev m x)
    (nexts : ∀ x ∈ xs, next m' x = next m x) : Segment prev next m' before first xs last after := by
  induction xs generalizing before first with
  | nil => exact segment
  | cons x xs ih =>
    obtain ⟨here, nonzero, back, rest⟩ := segment
    refine ⟨here, nonzero, ?_, ?_⟩
    · rw [prevs x (by simp), back]
    · rw [nexts x (by simp)]
      exact ih rest (fun y mem => prevs y (List.mem_cons_of_mem _ mem))
        (fun y mem => nexts y (List.mem_cons_of_mem _ mem))

/-- The nodes before a change: only the link out of the last one is new. -/
theorem Segment.setAfter {after' : Nat} (distinct : xs.Nodup)
    (prevs : ∀ x ∈ xs, prev m' x = prev m x) (nexts : ∀ x ∈ xs, x ≠ last → next m' x = next m x)
    (link : xs ≠ [] → next m' last = after') :
    Segment prev next m' before (if xs = [] then after' else first) xs last after' := by
  induction xs generalizing before first with
  | nil => exact ⟨rfl, segment.2⟩
  | cons x xs ih =>
    obtain ⟨here, nonzero, back, rest⟩ := segment
    obtain ⟨absent, distinct⟩ := List.nodup_cons.mp distinct
    have tail := ih rest distinct (fun y mem => prevs y (List.mem_cons_of_mem _ mem))
      (fun y mem => nexts y (List.mem_cons_of_mem _ mem)) (fun _ => link (by simp))
    refine ⟨by simpa using here, nonzero, ?_, ?_⟩
    · rw [prevs x (by simp), back]
    · cases xs with
      | nil =>
        have single : last = x := rest.2
        rw [single] at link
        simpa [link] using tail
      | cons y ys =>
        have other : x ≠ last := fun same => absent (same ▸ rest.last_mem (by simp))
        rw [nexts x (by simp) other]
        simpa using tail

/-- The nodes after a change: only the link back from the first one is new. -/
theorem Segment.setBefore {before' : Nat} (distinct : xs.Nodup)
    (nexts : ∀ x ∈ xs, next m' x = next m x) (prevs : ∀ x ∈ xs, x ≠ first → prev m' x = prev m x)
    (link : xs ≠ [] → prev m' first = before') :
    Segment prev next m' before' first xs (if xs = [] then before' else last) after := by
  cases xs with
  | nil => exact ⟨segment.1, rfl⟩
  | cons x xs =>
    obtain ⟨rfl, nonzero, -, rest⟩ := segment
    obtain ⟨absent, distinct⟩ := List.nodup_cons.mp distinct
    refine ⟨rfl, nonzero, link (by simp), ?_⟩
    rw [nexts first (by simp)]
    exact rest.congr
      (fun y mem => prevs y (List.mem_cons_of_mem _ mem) fun equal => absent (equal ▸ mem))
      (fun y mem => nexts y (List.mem_cons_of_mem _ mem))

end

/-- The node after some nodes is the first one of those that follow. -/
theorem Linked.split (linked : Linked prev next m first (xs ++ ys)) :
    Segment prev next m 0 first xs (lastOf xs) (firstOf ys) ∧
      ∃ last, Segment prev next m (lastOf xs) (firstOf ys) ys last 0 := by
  obtain ⟨last, segment⟩ := linked
  obtain ⟨mid, node, front, rest⟩ := segment_append.mp segment
  have midIs : mid = lastOf xs := front.last_eq
  have nodeIs : node = firstOf ys := rest.first_eq
  rw [← midIs, ← nodeIs]
  exact ⟨front, last, rest⟩

/-- The links of a node lead to its neighbours. -/
theorem Linked.neighbours (linked : Linked prev next m first (xs ++ [node] ++ ys)) :
    prev m node = lastOf xs ∧ next m node = firstOf ys := by
  rw [List.append_assoc] at linked
  obtain ⟨-, last, -, -, back, rest⟩ := linked.split
  exact ⟨back, rest.first_eq⟩

/-- What follows some nodes is found from the last one of them. -/
theorem Linked.following (linked : Linked prev next m first (xs ++ ys)) :
    firstOf ys = if lastOf xs = 0 then first else next m (lastOf xs) := by
  rcases List.eq_nil_or_concat xs with rfl | ⟨front, node, rfl⟩
  · exact linked.split.1.1.symm
  · rw [List.concat_eq_append] at linked ⊢
    obtain ⟨last, segment⟩ := linked
    have nonzero : node ≠ 0 := segment.ne_zero node (by simp)
    rw [lastOf_concat, if_neg nonzero]
    exact (Linked.neighbours ⟨last, segment⟩).2.symm

theorem Linked.ne_zero (linked : Linked prev next m first xs) : ∀ x ∈ xs, x ≠ 0 := by
  obtain ⟨last, segment⟩ := linked
  exact segment.ne_zero

theorem Linked.congr (linked : Linked prev next m first xs)
    (prevs : ∀ x ∈ xs, prev m' x = prev m x) (nexts : ∀ x ∈ xs, next m' x = next m x) :
    Linked prev next m' first xs := by
  obtain ⟨last, segment⟩ := linked
  exact ⟨last, segment.congr prevs nexts⟩

theorem Linked.lastOf_eq_zero (linked : Linked prev next m first (xs ++ mid ++ ys)) :
    lastOf xs = 0 ↔ xs = [] := by
  constructor
  · intro zero
    by_contra nonempty
    exact linked.ne_zero _ (by simp [lastOf_mem nonempty]) zero
  · rintro rfl
    rfl

theorem ne_of_mem_of_mem (distinct : (xs ++ mid ++ ys).Nodup) {x y : Nat} (memberX : x ∈ xs)
    (memberY : y ∈ ys) : x ≠ y :=
  (List.nodup_append.mp distinct).2.2 x (by simp [memberX]) y memberY

theorem ne_nil_of_firstOf (some : firstOf ys ≠ 0) : ys ≠ [] := by
  rintro rfl
  exact some rfl

/-- Some nodes are replaced by others, and their neighbours are linked to these. -/
theorem Linked.splice {mid' : List Nat} {first' last' : Nat}
    (linked : Linked prev next m first (xs ++ mid ++ ys)) (distinct : (xs ++ mid ++ ys).Nodup)
    (inner : Segment prev next m' (lastOf xs) first' mid' last' (firstOf ys))
    (prevs : ∀ x, x ∈ xs ∨ x ∈ ys → prev m' x =
      if firstOf ys ≠ 0 ∧ x = firstOf ys then last' else prev m x)
    (nexts : ∀ x, x ∈ xs ∨ x ∈ ys → next m' x =
      if lastOf xs ≠ 0 ∧ x = lastOf xs then first' else next m x) :
    Linked prev next m' (if lastOf xs = 0 then first' else first) (xs ++ mid' ++ ys) := by
  have empty := linked.lastOf_eq_zero
  obtain ⟨distinctFront, distinctBack, -⟩ := List.nodup_append.mp distinct
  obtain ⟨distinctFront, -, -⟩ := List.nodup_append.mp distinctFront
  obtain ⟨front, last, -⟩ := (show Linked prev next m first (xs ++ (mid ++ ys)) by
    rw [← List.append_assoc]; exact linked).split
  obtain ⟨-, last, rest⟩ := linked.split
  refine ⟨if ys = [] then last' else last, ?_⟩
  rw [List.append_assoc]
  simp only [empty]
  refine segment_append.mpr ⟨lastOf xs, first', front.setAfter distinctFront ?_ ?_ ?_,
    segment_append.mpr ⟨last', firstOf ys, inner, rest.setBefore distinctBack ?_ ?_ ?_⟩⟩
  · intro x mem
    rw [prevs x (.inl mem), if_neg]
    rintro ⟨some, same⟩
    exact ne_of_mem_of_mem distinct mem (firstOf_mem (ne_nil_of_firstOf some)) same
  · intro x mem other
    rw [nexts x (.inl mem), if_neg (fun target => other target.2)]
  · intro nonempty
    rw [nexts _ (.inl (lastOf_mem nonempty)), if_pos ⟨mt empty.mp nonempty, rfl⟩]
  · intro y mem
    rw [nexts y (.inr mem), if_neg]
    rintro ⟨some, same⟩
    exact ne_of_mem_of_mem distinct (lastOf_mem (mt empty.mpr some)) mem same.symm
  · intro y mem other
    rw [prevs y (.inr mem), if_neg (fun target => other target.2)]
  · intro nonempty
    have mem := firstOf_mem nonempty
    rw [prevs _ (.inr mem), if_pos ⟨linked.ne_zero _ (by simp [mem]), rfl⟩]

/-- A node put between others, and linked to both neighbours. -/
theorem Linked.put (linked : Linked prev next m first (xs ++ mid ++ ys))
    (distinct : (xs ++ mid ++ ys).Nodup) (nonzero : node ≠ 0)
    (new : ∀ x, x ∈ xs ∨ x ∈ ys → x ≠ node) (prevs : ∀ x, x = node ∨ x ∈ xs ∨ x ∈ ys → prev m' x =
      if firstOf ys ≠ 0 ∧ x = firstOf ys then node else if x = node then lastOf xs else prev m x)
    (nexts : ∀ x, x = node ∨ x ∈ xs ∨ x ∈ ys → next m' x =
      if lastOf xs ≠ 0 ∧ x = lastOf xs then node else if x = node then firstOf ys else next m x) :
    Linked prev next m' (if lastOf xs = 0 then node else first) (xs ++ [node] ++ ys) := by
  refine linked.splice distinct ⟨rfl, nonzero, ?_, ?_, rfl⟩ (fun x here => ?_) (fun x here => ?_)
  · rw [prevs node (.inl rfl), if_neg, if_pos rfl]
    rintro ⟨some, same⟩
    exact new _ (.inr (firstOf_mem (ne_nil_of_firstOf some))) same.symm
  · rw [nexts node (.inl rfl), if_neg, if_pos rfl]
    rintro ⟨some, same⟩
    exact new _ (.inl (lastOf_mem (mt linked.lastOf_eq_zero.mpr some))) same.symm
  · rw [prevs x (.inr here), if_neg (new x here)]
  · rw [nexts x (.inr here), if_neg (new x here)]

end

end Emerald
