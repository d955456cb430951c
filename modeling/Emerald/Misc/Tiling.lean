
import Mathlib

/-!
# Lists of intervals that tile a range

A list of intervals tiles `[lo, hi)` when the first one starts at `lo`, each one ends where
the next one starts and the last one ends at `hi`. The intervals are those of an arbitrary
type through its `start` and `size`, so that the results apply to any table of blocks.
-/

namespace Emerald
variable {lo hi : Nat}

section
variable {α : Type} (start size : α → Nat)
variable {xs : List α}

/-- The intervals of the list lie end to end from `lo` to `hi`. -/
def Tiles : Nat → List α → Nat → Prop
  | lo, [], hi => lo = hi
  | lo, x :: xs, hi => start x = lo ∧ Tiles (lo + size x) xs hi

/-- The half-open intervals of two elements share no point. -/
def Apart (x y : α) : Prop :=
  start x + size x ≤ start y ∨ start y + size y ≤ start x

instance (x y : α) : Decidable (Apart start size x y) :=
  inferInstanceAs (Decidable (_ ∨ _))

variable {start size}

theorem tiles_append (xs ys : List α) :
    Tiles start size lo (xs ++ ys) hi ↔
      ∃ mid, Tiles start size lo xs mid ∧ Tiles start size mid ys hi := by
  induction xs generalizing lo with
  | nil => simp [Tiles]
  | cons x xs ih =>
    simp only [List.cons_append, Tiles, ih]
    constructor
    · rintro ⟨first, mid, left, right⟩
      exact ⟨mid, ⟨first, left⟩, right⟩
    · rintro ⟨mid, ⟨first, left⟩, right⟩
      exact ⟨first, mid, left, right⟩

section
variable (tiles : Tiles start size lo xs hi)
include tiles

theorem Tiles.sum : lo + (xs.map size).sum = hi := by
  induction xs generalizing lo with
  | nil => simpa [Tiles] using tiles
  | cons x xs ih =>
    have rest := ih tiles.2
    simp only [List.map_cons, List.sum_cons]
    omega

theorem Tiles.bounds : ∀ x ∈ xs, lo ≤ start x ∧ start x + size x ≤ hi := by
  induction xs generalizing lo with
  | nil => simp
  | cons y ys ih =>
    obtain ⟨first, rest⟩ := tiles
    have total := rest.sum
    intro x mem
    rcases List.mem_cons.mp mem with rfl | later
    · omega
    · have := ih rest x later
      omega

/-- Earlier intervals of a tiling end before the later ones start. -/
theorem Tiles.ordered : xs.Pairwise (fun x y => start x + size x ≤ start y) := by
  induction xs generalizing lo with
  | nil => exact List.Pairwise.nil
  | cons x xs ih =>
    obtain ⟨first, rest⟩ := tiles
    refine List.pairwise_cons.mpr ⟨?_, ih rest⟩
    intro y mem
    have := rest.bounds y mem
    omega

theorem Tiles.apart : xs.Pairwise (Apart start size) :=
  tiles.ordered.imp .inl

end

/-- Consecutive elements of a tiling meet, wherever they stand. -/
theorem Tiles.meet {ys : List α} {x y : α} (tiles : Tiles start size lo (xs ++ x :: y :: ys) hi) :
    start x + size x = start y := by
  obtain ⟨mid, -, first, second, -⟩ := (tiles_append xs _).mp tiles
  omega

end

end Emerald
