
import Emerald.Sync.Once

/-!
# What a `OnceLock` shows

`Once::call` marks the lock as done whether or not its closure has written a value, so the first
initialiser that is called decides what the lock shows from then on, also if it fails.
-/

namespace Emerald.Sync

namespace OnceCall
variable {T E : Type}

/-- The value that the call puts into a lock that has none. -/
def initialiser : OnceCall T E → Option T
  | .set value | .getOrInit value | .getOrTryInit (.ok value) => some value
  | _ => none

/-- What the call leaves in the slot of a lock that no initialiser was called for. -/
def attempt : OnceCall T E → Option (Option T)
  | .getOrTryInit (.error _) => some none
  | call => call.initialiser.map some

variable (attempted : Option (Option T))

/-- What a lock has seen: nothing yet, or what its first initialiser left in the slot. -/
def after : OnceLock T :=
  match attempted with
  | none => .new
  | some value => ⟨.done, value⟩

theorem run_after (call : OnceCall T E) :
    call.run (after attempted) = some (after (attempted.or call.attempt)) := by
  cases attempted with
  | some value => cases call <;> rfl
  | none =>
    cases call with
    | getOrTryInit f => cases f <;> rfl
    | _ => rfl

/-- The first initialiser that is called decides. -/
theorem foldlM_run (calls : List (OnceCall T E)) (attempted : Option (Option T)) :
    calls.foldlM run (after attempted) = some (after (attempted.or (calls.findSome? attempt))) := by
  induction calls generalizing attempted with
  | nil => rw [List.findSome?_nil, Option.or_none]; rfl
  | cons call calls ih =>
    rw [List.foldlM_cons, run_after]
    refine (ih _).trans ?_
    rw [List.findSome?_cons, Option.or_assoc]
    cases call.attempt <;> rfl

theorem get_after : (after attempted).get = attempted := by
  cases attempted <;> rfl

theorem tryGet_after : (after attempted).tryGet = attempted := by
  cases attempted <;> rfl

end OnceCall

section
open OnceCall

/-- After each of the calls the lock shows the value of the first initialiser that succeeded; before
there was one `try_get` gives nothing and `get` panics. -/
def ShowsInitialised {T E : Type} (calls : List (OnceCall T E)) : Prop :=
  ∀ before, before <+: calls → ∃ lock, before.foldlM run (OnceLock.new : OnceLock T) = some lock ∧
    lock.tryGet = (before.findSome? initialiser).map some ∧
    lock.get = (before.findSome? initialiser).map some

theorem showsInitialised_iff_attempt {T E : Type} {calls : List (OnceCall T E)} :
    ShowsInitialised calls ↔
      ∀ before, before <+: calls →
        before.findSome? attempt = (before.findSome? initialiser).map some := by
  refine forall₂_congr fun before _ => ?_
  rw [show (OnceLock.new : OnceLock T) = after none from rfl, foldlM_run]
  simp only [Option.some.injEq, exists_eq_left', tryGet_after, get_after, Option.none_or, and_self]

/-- This is so exactly if no initialiser fails before one has succeeded. -/
theorem showsInitialised_iff {T E : Type} (calls : List (OnceCall T E)) :
    ShowsInitialised calls ↔
      ∀ before e, before ++ [.getOrTryInit (.error e)] <+: calls →
        before.findSome? initialiser ≠ none := by
  rw [showsInitialised_iff_attempt]
  constructor
  · intro shows before e failed uninitialised
    have now := shows before ((List.prefix_append _ _).trans failed)
    have next := shows _ failed
    rw [List.findSome?_append, List.findSome?_append, now, uninitialised] at next
    cases next
  · intro succeeds before
    induction before using List.reverseRecOn with
    | nil => exact fun _ => rfl
    | append_singleton before call ih =>
      intro inside
      have now := ih ((List.prefix_append _ _).trans inside)
      rw [List.findSome?_append, List.findSome?_append, now]
      cases initialised : before.findSome? initialiser with
      | some value => rfl
      | none =>
        -- only a failing initialiser leaves the slot empty
        cases call with
        | getOrTryInit f =>
          cases f with
          | ok value => rfl
          | error e => exact absurd initialised (succeeds before e inside)
        | _ => rfl

/-- A lock whose first initialiser fails shows its empty slot, and a value that is set later is
lost. -/
theorem failed_initialiser_shows_nothing :
    ∃ lock : OnceLock Nat,
      [.getOrTryInit (.error ()), .set 7].foldlM OnceCall.run OnceLock.new = some lock ∧
        lock.tryGet = some none ∧
        ¬ ShowsInitialised [.getOrTryInit (.error ()), (.set 7 : OnceCall Nat Unit)] := by
  refine ⟨⟨.done, none⟩, rfl, rfl, ?_⟩
  intro shows
  obtain ⟨lock, run, seen, -⟩ := shows [.getOrTryInit (.error ())] ⟨_, rfl⟩
  cases run
  cases seen

end

end Emerald.Sync
