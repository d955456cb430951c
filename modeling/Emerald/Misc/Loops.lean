
import Mathlib

/-!
# Loops over a range

`for i in start..start + n` with a body that changes a state and may stop the program. The loop
goes through exactly if each of its rounds does, when whether a round does depends on its index
alone; and what every round keeps, the loop keeps.
-/

namespace Emerald

section
variable {σ : Type} {f : Nat → σ → Option σ} {P : σ → Prop}

/-- The rounds `start..` of a loop, as many as given. -/
def forRange (f : Nat → σ → Option σ) : Nat → Nat → σ → Option σ
  | 0, _, s => some s
  | n + 1, start, s => (f start s).bind (forRange f n (start + 1))

theorem forRange_succ {n start : Nat} {s t : σ} :
    forRange f (n + 1) start s = some t ↔
      ∃ u, f start s = some u ∧ forRange f n (start + 1) u = some t :=
  Option.bind_eq_some_iff

/-- The rule for an invariant of the rounds. -/
theorem forRange_invariant (n : Nat) : ∀ {start : Nat} {s t : σ},
    (∀ i, start ≤ i → i < start + n → ∀ u v, P u → f i u = some v → P v) →
    P s → forRange f n start s = some t → P t := by
  induction n with
  | zero =>
    intro start s t _ holds done
    cases done
    exact holds
  | succ n ih =>
    intro start s t kept holds done
    obtain ⟨u, first, rest⟩ := forRange_succ.mp done
    refine ih ?_ (kept start le_rfl (by omega) s u holds first) rest
    intro i above below
    exact kept i (by omega) (by omega)

/-- The rule for whether a loop goes through. -/
theorem forRange_isSome_iff {Q : Nat → Prop} (round : ∀ i s, P s → ((∃ t, f i s = some t) ↔ Q i))
    (kept : ∀ i s t, P s → f i s = some t → P t) (n : Nat) : ∀ (start : Nat) {s : σ}, P s →
      ((∃ t, forRange f n start s = some t) ↔ ∀ k < n, Q (start + k)) := by
  induction n with
  | zero =>
    intro start s _
    exact iff_of_true ⟨s, rfl⟩ fun k inside => absurd inside (Nat.not_lt_zero k)
  | succ n ih =>
    intro start s holds
    constructor
    · rintro ⟨t, done⟩ k inside
      obtain ⟨u, first, rest⟩ := forRange_succ.mp done
      cases k with
      | zero => exact (round start s holds).mp ⟨u, first⟩
      | succ k =>
        have later := (ih (start + 1) (kept start s u holds first)).mp ⟨t, rest⟩ k (by omega)
        rw [add_right_comm] at later
        exact later
    · intro all
      obtain ⟨u, first⟩ := (round start s holds).mpr (all 0 (Nat.succ_pos n))
      have later : ∀ k < n, Q (start + 1 + k) := by
        intro k inside
        rw [add_right_comm]
        exact all (k + 1) (by omega)
      obtain ⟨t, rest⟩ := (ih (start + 1) (kept start s u holds first)).mpr later
      exact ⟨t, forRange_succ.mpr ⟨u, first, rest⟩⟩

end

end Emerald
