
import Mathlib

/-!
# Reachable states

A transition system is a relation `step s c t`: the call `c` takes the state `s` to `t`.
`Reachable step guard init` holds of the states reached from an initial one by calls that
each meet `guard` in the state they are made in.
-/

namespace Emerald

section
variable {σ κ : Type} {step : σ → κ → σ → Prop} {guard : σ → κ → Prop} {init : σ → Prop}
variable {f : σ → κ → Option σ}

inductive Reachable (step : σ → κ → σ → Prop) (guard : σ → κ → Prop) (init : σ → Prop) :
    σ → Prop
  | start {s : σ} : init s → Reachable step guard init s
  | call {s t : σ} (c : κ) : Reachable step guard init s → guard s c → step s c t →
      Reachable step guard init t

/-- The invariant rule: what holds initially and is kept by every guarded step holds in
every reachable state. -/
theorem Reachable.invariant {P : σ → Prop} (base : ∀ s, init s → P s)
    (keep : ∀ s c t, P s → guard s c → step s c t → P t) :
    ∀ s, Reachable step guard init s → P s := by
  intro s reached
  induction reached with
  | start first => exact base _ first
  | call c _ allowed taken ih => exact keep _ c _ ih allowed taken

/-- The state after a list of calls of a step function, if each of them is allowed and takes
place. -/
def runCalls (f : σ → κ → Option σ) (allowed : σ → κ → Bool) (s : σ) : List κ → Option σ
  | [] => some s
  | c :: cs =>
    if allowed s c then
      match f s c with
      | some t => runCalls f allowed t cs
      | none => none
    else none

/-- A concrete run of a step function reaches its last state. -/
theorem Reachable.of_runCalls (allowed : σ → κ → Bool)
    (sound : ∀ s c, allowed s c = true → guard s c) {s t : σ} (cs : List κ)
    (reached : Reachable (fun s c t => f s c = some t) guard init s)
    (run : runCalls f allowed s cs = some t) :
    Reachable (fun s c t => f s c = some t) guard init t := by
  induction cs generalizing s with
  | nil =>
    cases run
    exact reached
  | cons c cs ih =>
    simp only [runCalls] at run
    split at run
    · rename_i permitted
      split at run
      · rename_i next taken
        exact ih (.call c reached (sound s c permitted) taken) run
      · simp at run
    · simp at run

/-- What is seen in the last state of a concrete run from an initial state holds in a reachable
one. -/
theorem Reachable.exists_of_run [∀ s c, Decidable (guard s c)] {s : σ} {seen : σ → Prop}
    [DecidablePred seen] (first : init s) (cs : List κ)
    (run : (runCalls f (fun s c => decide (guard s c)) s cs).any fun t => decide (seen t)) :
    ∃ t, Reachable (fun s c t => f s c = some t) guard init t ∧ seen t := by
  obtain ⟨t, ran, here⟩ := (Option.any_eq_true _ _).mp run
  exact ⟨t, .of_runCalls _ (fun _ _ => of_decide_eq_true) cs (.start first) ran,
    of_decide_eq_true here⟩

/-- A part of the state that each call changes without regard to the rest of it. -/
theorem runCalls_foldl {τ : Type} {allowed : σ → κ → Bool}
    {next : τ → κ → τ} (part : σ → τ) (alone : ∀ s c t, f s c = some t → part t = next (part s) c)
    {s t : σ} {cs : List κ} (run : runCalls f allowed s cs = some t) :
    part t = cs.foldl next (part s) := by
  induction cs generalizing s with
  | nil => rw [← Option.some.inj run, List.foldl_nil]
  | cons c cs ih =>
    simp only [runCalls] at run
    split at run
    · split at run
      · rename_i taken
        rw [List.foldl_cons, ← alone _ _ _ taken]
        exact ih run
      · simp at run
    · simp at run

end

end Emerald
