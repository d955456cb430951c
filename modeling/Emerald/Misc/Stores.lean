
import Emerald.Misc.Bytes

/-!
# Logs of stores

What a program has stored, in the order of its stores. Stores that do not meet can all be read back.
-/

namespace Emerald

/-- Bytes that are stored from an address on. -/
structure Store where
  address : Nat
  bytes : List UInt8
  deriving DecidableEq

/-- The address gets one of the bytes. -/
def Store.Covers (w : Store) (a : Nat) : Prop :=
  w.address ≤ a ∧ a < w.address + w.bytes.length

/-- The memory after the stores. -/
def runStores (memory : Nat → UInt8) (stores : List Store) : Nat → UInt8 :=
  stores.foldl (fun memory w => writeBytes memory w.address w.bytes) memory

/-- Stores between two addresses, no two of which meet. -/
structure Separate (lo hi : Nat) (stores : List Store) : Prop where
  inside : ∀ w ∈ stores, ∀ a, w.Covers a → lo ≤ a ∧ a < hi
  apart : stores.Pairwise fun v w => ∀ a, v.Covers a → ¬w.Covers a

section
variable {lo hi lo' : Nat} {stores : List Store} {w : Store}

theorem separate_nil : Separate lo hi [] := by
  constructor
  · intro w mem
    cases mem
  · exact List.Pairwise.nil

section
variable (separate : Separate lo hi stores)
include separate

theorem Separate.weaken (lower : lo' ≤ lo) :
    Separate lo' hi stores := by
  refine ⟨?_, separate.apart⟩
  intro w mem a covers
  have bounds := separate.inside w mem a covers
  exact ⟨by omega, bounds.2⟩

/-- One more store that meets none of the others. -/
theorem Separate.concat (inside : ∀ a, w.Covers a → lo ≤ a ∧ a < hi)
    (apart : ∀ v ∈ stores, ∀ a, v.Covers a → ¬w.Covers a) : Separate lo hi (stores ++ [w]) := by
  constructor
  · intro v mem
    cases List.mem_append.mp mem with
    | inl earlier => exact separate.inside v earlier
    | inr last =>
      rw [List.mem_singleton.mp last]
      exact inside
  · rw [List.pairwise_append]
    refine ⟨separate.apart, List.pairwise_singleton _ _, ?_⟩
    intro v earlier v' last
    rw [List.mem_singleton.mp last]
    exact apart v earlier

/-- A store below all the others. -/
theorem Separate.below (ordered : lo ≤ hi)
    (ends : w.address + w.bytes.length ≤ lo) (starts : lo' ≤ w.address) :
    Separate lo' hi (stores ++ [w]) := by
  apply (separate.weaken (by omega)).concat
  · intro a covers
    have low := covers.1
    have high := covers.2
    exact ⟨by omega, by omega⟩
  · intro v earlier a covers again
    have bounds := separate.inside v earlier a covers
    have high := again.2
    omega

end

theorem runStores_append (memory : Nat → UInt8) (stores later : List Store) :
    runStores memory (stores ++ later) = runStores (runStores memory stores) later :=
  List.foldl_append ..

/-- Stores elsewhere do not change what is read. -/
theorem readBytes_runStores_outside {start n : Nat} (memory : Nat → UInt8)
    (outside : ∀ v ∈ stores, ∀ a, v.Covers a → ¬(start ≤ a ∧ a < start + n)) :
    readBytes (runStores memory stores) start n = readBytes memory start n := by
  induction stores generalizing memory with
  | nil => rfl
  | cons v stores ih =>
    have rest := ih (writeBytes memory v.address v.bytes) fun u mem =>
      outside u (List.mem_cons_of_mem _ mem)
    rw [show runStores memory (v :: stores) =
      runStores (writeBytes memory v.address v.bytes) stores from rfl, rest]
    apply readBytes_congr
    intro a low high
    apply writeBytes_outside
    by_contra inside
    refine outside v List.mem_cons_self a ?_ ⟨low, high⟩
    exact ⟨by omega, by omega⟩

/-- What is stored is read back. -/
theorem Separate.readBytes_store (separate : Separate lo hi stores) (mem : w ∈ stores)
    (memory : Nat → UInt8) :
    readBytes (runStores memory stores) w.address w.bytes.length = w.bytes := by
  obtain ⟨before, after, rfl⟩ := List.append_of_mem mem
  rw [runStores_append, show runStores (runStores memory before) (w :: after) =
    runStores (writeBytes (runStores memory before) w.address w.bytes) after from rfl]
  rw [readBytes_runStores_outside]
  · exact readBytes_writeBytes_same _ _ _
  · intro v later a covers inside
    have rest := (List.pairwise_append.mp separate.apart).2.1
    exact List.rel_of_pairwise_cons rest later a inside covers

end

end Emerald
