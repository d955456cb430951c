
import Mathlib

/-!
# Partitions of an interval

A list of blocks, each with a start and a size, partitions an interval of numbers if every number in
it is in exactly one block and no other number is in any. The order of the blocks does not matter.
-/

namespace Emerald

section
variable {β : Type} (start size : β → Nat)

/-- The number is in the block. -/
def inBlock (x : Nat) (b : β) : Bool := decide (start b ≤ x) && decide (x < start b + size b)

/-- In how many of the blocks the number is. -/
def cover (x : Nat) (blocks : List β) : Nat := blocks.countP (inBlock start size x)

def Partitions (lo hi : Nat) (blocks : List β) : Prop :=
  ∀ x, cover start size x blocks = if lo ≤ x ∧ x < hi then 1 else 0

variable {start size} {lo hi : Nat} {blocks others : List β} {b c : β}

@[simp]
theorem cover_nil (x : Nat) : cover start size x [] = 0 := rfl

theorem cover_cons (x : Nat) (b : β) (blocks : List β) :
    cover start size x (b :: blocks) =
      cover start size x blocks + if start b ≤ x ∧ x < start b + size b then 1 else 0 := by
  simp only [cover, List.countP_cons, inBlock, Bool.and_eq_true, decide_eq_true_eq]

theorem cover_append (x : Nat) (blocks others : List β) :
    cover start size x (blocks ++ others) =
      cover start size x blocks + cover start size x others := List.countP_append ..

theorem Partitions.perm (partitions : Partitions start size lo hi blocks)
    (perm : blocks.Perm others) : Partitions start size lo hi others := by
  intro x
  rw [← partitions x]
  exact (perm.countP_eq _).symm

/-- Blocks replaced by others that cover the same numbers. -/
theorem Partitions.replace {rest : List β}
    (partitions : Partitions start size lo hi (blocks ++ rest))
    (same : ∀ x, cover start size x others = cover start size x blocks) :
    Partitions start size lo hi (others ++ rest) := by
  intro x
  rw [← partitions x, cover_append, cover_append, same]

theorem one_le_cover (mem : b ∈ blocks) {x : Nat} (low : start b ≤ x)
    (high : x < start b + size b) : 1 ≤ cover start size x blocks := by
  refine List.countP_pos_iff.mpr ⟨b, mem, ?_⟩
  simp [inBlock, low, high]

theorem Partitions.within (partitions : Partitions start size lo hi blocks) (mem : b ∈ blocks)
    (pos : 0 < size b) : lo ≤ start b ∧ start b + size b ≤ hi := by
  have first : 1 ≤ cover start size (start b) blocks :=
    one_le_cover mem le_rfl (by omega)
  have last : 1 ≤ cover start size (start b + size b - 1) blocks :=
    one_le_cover mem (by omega) (by omega)
  rw [partitions] at first last
  split at first
  · split at last
    · omega
    · omega
  · omega

/-- A block and one of the others have no number in common. -/
theorem Partitions.apart (partitions : Partitions start size lo hi (b :: blocks))
    (mem : c ∈ blocks) (pos : 0 < size b) (pos' : 0 < size c) :
    start b + size b ≤ start c ∨ start c + size c ≤ start b := by
  by_contra overlap
  have twice := partitions (max (start b) (start c))
  have second : 1 ≤ cover start size (max (start b) (start c)) blocks :=
    one_le_cover mem (by omega) (by omega)
  rw [cover_cons, if_pos (by omega)] at twice
  split at twice <;> omega

/-- The same for the blocks of two parts of the list. -/
theorem Partitions.apart_append (partitions : Partitions start size lo hi (blocks ++ others))
    (mem : b ∈ blocks) (mem' : c ∈ others) (pos : 0 < size b) (pos' : 0 < size c) :
    start b + size b ≤ start c ∨ start c + size c ≤ start b := by
  obtain ⟨front, back, rfl⟩ := List.append_of_mem mem
  rw [List.append_assoc] at partitions
  refine (partitions.perm List.perm_middle).apart ?_ pos pos'
  simp [mem']

theorem partitions_nil (lo : Nat) : Partitions start size lo lo ([] : List β) := by
  intro x
  rw [if_neg (by omega)]
  rfl

/-- The interval continued by a block. -/
theorem Partitions.extend (partitions : Partitions start size lo hi blocks) (ordered : lo ≤ hi)
    (here : start b = hi) : Partitions start size lo (hi + size b) (b :: blocks) := by
  intro x
  rw [cover_cons, partitions x]
  split <;> split <;> split <;> omega

end

/-! ## Blocks with gaps between them -/

/-- Blocks by start and size, in increasing order and with a gap after each of them. -/
def Gapped (blocks : List (Nat × Nat)) : Prop :=
  blocks.Pairwise (fun a b => a.1 + a.2 < b.1) ∧ ∀ b ∈ blocks, 0 < b.2

section
variable {blocks others : List (Nat × Nat)} {b c : Nat × Nat}

theorem Gapped.tail (gapped : Gapped (b :: blocks)) : Gapped blocks :=
  ⟨gapped.1.of_cons, fun c mem => gapped.2 c (List.mem_cons_of_mem b mem)⟩

theorem Gapped.after (gapped : Gapped (b :: blocks)) : ∀ c ∈ blocks, b.1 + b.2 < c.1 :=
  (List.pairwise_cons.mp gapped.1).1

theorem cover_pos_iff {x : Nat} :
    0 < cover Prod.fst Prod.snd x blocks ↔ ∃ b ∈ blocks, b.1 ≤ x ∧ x < b.1 + b.2 := by
  simp [cover, inBlock]

/-- The first block of a list starts no later than that of a list that covers no less. -/
theorem Gapped.first_le (gapped : Gapped (b :: blocks)) (pos : 0 < c.2)
    (less : ∀ x, 0 < cover Prod.fst Prod.snd x (c :: others) →
      0 < cover Prod.fst Prod.snd x (b :: blocks)) : b.1 ≤ c.1 := by
  have start := less c.1 (cover_pos_iff.mpr ⟨c, List.mem_cons_self, by omega, by omega⟩)
  obtain ⟨d, mem, low, -⟩ := cover_pos_iff.mp start
  cases mem with
  | head => exact low
  | tail _ later =>
    have := gapped.after d later
    omega

/-- The first block ends no earlier than one with the same start that the list covers. -/
theorem Gapped.end_le (gapped : Gapped (b :: blocks)) (same : c.1 = b.1)
    (less : ∀ x, 0 < cover Prod.fst Prod.snd x (c :: others) →
      0 < cover Prod.fst Prod.snd x (b :: blocks)) : c.2 ≤ b.2 := by
  apply Nat.le_of_not_lt
  intro longer
  have gap := less (b.1 + b.2)
    (cover_pos_iff.mpr ⟨c, List.mem_cons_self, by omega, by omega⟩)
  obtain ⟨d, mem, low, high⟩ := cover_pos_iff.mp gap
  cases mem with
  | head => omega
  | tail _ later =>
    have := gapped.after d later
    omega

/-- Such blocks are determined by the numbers they cover. -/
theorem Gapped.eq_of_cover (gapped : Gapped blocks) (gapped' : Gapped others)
    (same : ∀ x, cover Prod.fst Prod.snd x blocks = cover Prod.fst Prod.snd x others) :
    blocks = others := by
  induction blocks generalizing others with
  | nil =>
    cases others with
    | nil => rfl
    | cons c others =>
      have pos := gapped'.2 c List.mem_cons_self
      have covered := cover_pos_iff.mpr
        ⟨c, List.mem_cons_self (l := others), le_refl c.1, by omega⟩
      rw [← same c.1] at covered
      exact absurd covered (lt_irrefl 0)
  | cons b blocks ih =>
    cases others with
    | nil =>
      have pos := gapped.2 b List.mem_cons_self
      have covered := cover_pos_iff.mpr
        ⟨b, List.mem_cons_self (l := blocks), le_refl b.1, by omega⟩
      rw [same b.1] at covered
      exact absurd covered (lt_irrefl 0)
    | cons c others =>
      have there : ∀ x, 0 < cover Prod.fst Prod.snd x (c :: others) →
          0 < cover Prod.fst Prod.snd x (b :: blocks) := fun x covered => same x ▸ covered
      have back : ∀ x, 0 < cover Prod.fst Prod.snd x (b :: blocks) →
          0 < cover Prod.fst Prod.snd x (c :: others) := fun x covered => same x ▸ covered
      have starts : b.1 = c.1 := le_antisymm
        (gapped.first_le (gapped'.2 c List.mem_cons_self) there)
        (gapped'.first_le (gapped.2 b List.mem_cons_self) back)
      have sizes : b.2 = c.2 := le_antisymm (gapped'.end_le starts back)
        (gapped.end_le starts.symm there)
      have first : b = c := Prod.ext starts sizes
      subst first
      rw [ih gapped.tail gapped'.tail]
      intro x
      have whole := same x
      simp only [cover_cons] at whole
      omega

end

end Emerald
