
import Mathlib

/-!
# Programs that can fail

A stateful computation that may stop with an error keeps the state it has reached: the programs
of `EStateM`. `Meets p s post fail` says how every run of `p` from `s` ends, and the lemmas below
take a program apart along its sequencing.
-/

namespace Emerald

section
variable {ε σ α β : Type} {s : σ} {post post' : α → σ → Prop} {fail fail' : ε → σ → Prop}
variable {p : EStateM ε σ β} {f : β → EStateM ε σ α} {a : α} {e : ε} {t u : σ} {b : β}

/-- From `s` the program returns with `post` or stops with `fail`. -/
def Meets (p : EStateM ε σ α) (s : σ) (post : α → σ → Prop) (fail : ε → σ → Prop) : Prop :=
  match p s with
  | .ok a t => post a t
  | .error e t => fail e t

/-- From `s` the program returns with `post`. -/
def Returns (p : EStateM ε σ α) (s : σ) (post : α → σ → Prop) : Prop :=
  Meets p s post fun _ _ => False

theorem meets_bind :
    Meets (p >>= f) s post fail ↔ Meets p s (fun b t => Meets (f b) t post fail) fail := by
  show Meets (EStateM.bind p f) s post fail ↔ _
  unfold Meets EStateM.bind
  cases p s <;> rfl

theorem meets_pure : Meets (pure a : EStateM ε σ α) s post fail ↔ post a s := Iff.rfl

theorem meets_get_bind {f : σ → EStateM ε σ α} :
    Meets (get >>= f) s post fail ↔ Meets (f s) s post fail := Iff.rfl

theorem meets_modify_bind {g : σ → σ} {f : PUnit → EStateM ε σ α} :
    Meets (modify g >>= f) s post fail ↔ Meets (f ()) (g s) post fail := Iff.rfl

theorem meets_map {f : β → α} :
    Meets (f <$> p) s post fail ↔ Meets p s (fun b t => post (f b) t) fail := by
  show Meets (EStateM.map f p) s post fail ↔ _
  unfold Meets EStateM.map
  cases p s <;> rfl

theorem meets_of_eq_ok {p : EStateM ε σ α} (run : p s = .ok a t) :
    Meets p s post fail ↔ post a t := by
  unfold Meets
  rw [run]

theorem meets_of_eq_error {p : EStateM ε σ α} (run : p s = .error e t) :
    Meets p s post fail ↔ fail e t := by
  unfold Meets
  rw [run]

theorem Meets.mono {p : EStateM ε σ α} (met : Meets p s post fail)
    (posts : ∀ a t, post a t → post' a t) (fails : ∀ e t, fail e t → fail' e t) :
    Meets p s post' fail' := by
  unfold Meets at met ⊢
  split at met
  · exact posts _ _ met
  · exact fails _ _ met

/-- The rule for sequencing: what the second part needs is what the first part leaves. -/
theorem Meets.bind (mid : β → σ → Prop) (first : Meets p s mid fail)
    (second : ∀ b t, mid b t → Meets (f b) t post fail) : Meets (p >>= f) s post fail :=
  meets_bind.mpr (first.mono second fun _ _ stopped => stopped)

theorem Meets.of_ok {p : EStateM ε σ α} (met : Meets p s post fail) (run : p s = .ok a t) :
    post a t := by
  unfold Meets at met
  rwa [run] at met

theorem Meets.of_error {p : EStateM ε σ α} (met : Meets p s post fail) (run : p s = .error e t) :
    fail e t := by
  unfold Meets at met
  rwa [run] at met

theorem Returns.exists {p : EStateM ε σ α} (met : Returns p s post) :
    ∃ a t, p s = .ok a t ∧ post a t := by
  unfold Returns Meets at met
  split at met
  · rename_i a t run
    exact ⟨a, t, run, met⟩
  · exact met.elim

theorem returns_of_ok {p : EStateM ε σ α} (run : p s = .ok a t) (met : post a t) :
    Returns p s post := by
  unfold Returns Meets
  rwa [run]

theorem Returns.bind (mid : β → σ → Prop) (first : Returns p s mid)
    (second : ∀ b t, mid b t → Returns (f b) t post) : Returns (p >>= f) s post :=
  Meets.bind mid first second

theorem Returns.mono {p : EStateM ε σ α} (met : Returns p s post)
    (posts : ∀ a t, post a t → post' a t) : Returns p s post' :=
  Meets.mono met posts fun _ _ impossible => impossible

/-- A program that returns took both of its parts. -/
theorem bind_ok (run : (p >>= f) s = .ok a t) : ∃ b u, p s = .ok b u ∧ f b u = .ok a t := by
  change EStateM.bind p f s = _ at run
  unfold EStateM.bind at run
  split at run
  · rename_i b u first
    exact ⟨b, u, first, run⟩
  · cases run

theorem bind_of_ok (first : p s = .ok b u) : (p >>= f) s = f b u := by
  show EStateM.bind p f s = _
  unfold EStateM.bind
  rw [first]

theorem bind_of_error (first : p s = .error e u) : (p >>= f) s = .error e u := by
  show EStateM.bind p f s = _
  unfold EStateM.bind
  rw [first]

theorem meets_after (first : p s = .ok b u) :
    Meets (p >>= f) s post fail ↔ Meets (f b) u post fail := by
  unfold Meets
  rw [bind_of_ok first]

/-- A program whose first part is known to return. -/
theorem Returns.after (first : p s = .ok b u) (second : Returns (f b) u post) :
    Returns (p >>= f) s post := by
  unfold Returns Meets
  rw [bind_of_ok first]
  exact second

theorem get_bind {f : σ → EStateM ε σ α} : (get >>= f) s = f s s := rfl

end

/-! ## `Option` and `Except` -/

theorem bind_eq_some {α β : Type} {x : Option β} {f : β → Option α} {a : α} :
    x >>= f = some a ↔ ∃ b, x = some b ∧ f b = some a :=
  Option.bind_eq_some_iff

theorem bind_some_eq_some {α β : Type} {x : Option β} {f : β → α} {a : α} :
    (x >>= fun b => some (f b)) = some a ↔ ∃ b, x = some b ∧ f b = a := by
  simp only [bind_eq_some, Option.some.injEq]

theorem some_bind {α β : Type} (b : β) (f : β → Option α) : some b >>= f = f b := rfl

theorem exists_of_bind_eq_ok {ε α β : Type} {x : Except ε β} {f : β → Except ε α} {a : α}
    (done : x >>= f = .ok a) : ∃ b, x = .ok b ∧ f b = .ok a := by
  cases x with
  | error e => cases done
  | ok b => exact ⟨b, rfl, done⟩

end Emerald
