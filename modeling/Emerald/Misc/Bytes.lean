
import Mathlib

/-!
# Buffers of bytes

Slices of a `Vec` and writes into one, little-endian numbers, and a byte-addressed store that is
read and written a run of bytes at a time.
-/

namespace Emerald
variable {α : Type} {start k n i a : Nat}

section
variable {l part new : List α}

/-- `&l[start..start + n]`; `none` when the range leaves the buffer. -/
def slice? (l : List α) (start n : Nat) : Option (List α) :=
  if start + n ≤ l.length then some ((l.drop start).take n) else none

/-- `l[start..start + new.len()].copy_from_slice(new)`, for a range inside the buffer. -/
def splice (l : List α) (start : Nat) (new : List α) : List α :=
  l.take start ++ (new ++ l.drop (start + new.length))

theorem slice?_eq_some_iff :
    slice? l start n = some part ↔ start + n ≤ l.length ∧ (l.drop start).take n = part := by
  unfold slice?
  split
  · rename_i inside
    simp [inside]
  · rename_i outside
    simp [outside]

theorem length_of_slice? (taken : slice? l start n = some part) : part.length = n := by
  obtain ⟨inside, rfl⟩ := slice?_eq_some_iff.mp taken
  simp only [List.length_take, List.length_drop]
  omega

theorem getElem?_of_slice? (taken : slice? l start n = some part) (below : i < n) :
    part[i]? = l[start + i]? := by
  obtain ⟨-, rfl⟩ := slice?_eq_some_iff.mp taken
  rw [List.getElem?_take_of_lt below, List.getElem?_drop]

section
variable (inside : start + new.length ≤ l.length)
include inside

theorem length_splice : (splice l start new).length = l.length := by
  simp only [splice, List.length_append, List.length_take, List.length_drop]
  omega

theorem getElem?_splice (i : Nat) :
    (splice l start new)[i]? =
      if start ≤ i ∧ i < start + new.length then new[i - start]? else l[i]? := by
  have cut : (l.take start).length = start := by
    rw [List.length_take]
    omega
  unfold splice
  by_cases before : i < start
  · rw [List.getElem?_append_left (by omega), List.getElem?_take_of_lt before, if_neg (by omega)]
  · rw [List.getElem?_append_right (by omega), cut]
    by_cases within : i < start + new.length
    · rw [List.getElem?_append_left (by omega), if_pos (by omega)]
    · rw [List.getElem?_append_right (by omega), List.getElem?_drop, if_neg (by omega)]
      congr 1
      omega

/-- Reading back what was written. -/
theorem slice?_splice_same : slice? (splice l start new) start new.length = some new := by
  have cut : (l.take start).length = start := by
    rw [List.length_take]
    omega
  refine slice?_eq_some_iff.mpr ⟨by rw [length_splice inside]; exact inside, ?_⟩
  unfold splice
  rw [List.drop_left' cut, List.take_left' rfl]

end

end

/-- A part outside the bytes that are replaced. -/
theorem slice?_splice_outside {l new : List α} (inside : start + new.length ≤ l.length)
    (apart : k + n ≤ start ∨ start + new.length ≤ k) :
    slice? (splice l start new) k n = slice? l k n := by
  unfold slice?
  rw [length_splice inside]
  by_cases whole : k + n ≤ l.length
  · rw [if_pos whole, if_pos whole]
    congr 1
    apply List.ext_getElem?
    intro i
    by_cases below : i < n
    · rw [List.getElem?_take_of_lt below, List.getElem?_take_of_lt below, List.getElem?_drop,
        List.getElem?_drop, getElem?_splice inside, if_neg (by omega)]
    · rw [List.getElem?_eq_none (by rw [List.length_take]; omega),
        List.getElem?_eq_none (by rw [List.length_take]; omega)]
  · rw [if_neg whole, if_neg whole]

/-- A slice of the start of a list is a slice of the list. -/
theorem slice?_take {l : List α} (inside : start + n ≤ k) :
    slice? (l.take k) start n = slice? l start n := by
  unfold slice?
  rw [List.length_take]
  by_cases fits : start + n ≤ l.length
  · rw [if_pos (Nat.le_min.mpr ⟨inside, fits⟩), if_pos fits, List.drop_take, List.take_take,
      Nat.min_eq_left (by omega)]
  · rw [if_neg (by omega), if_neg fits]

theorem slice?_two {l part : List α} :
    slice? l k 2 = some part ↔ ∃ a b, part = [a, b] ∧ l[k]? = some a ∧ l[k + 1]? = some b := by
  constructor
  · intro taken
    have length := length_of_slice? taken
    obtain ⟨a, b, rfl⟩ := List.length_eq_two.mp length
    exact ⟨a, b, rfl, (getElem?_of_slice? taken Nat.zero_lt_two).symm,
      (getElem?_of_slice? taken Nat.one_lt_two).symm⟩
  · rintro ⟨a, b, rfl, first, second⟩
    obtain ⟨inside, here⟩ := List.getElem?_eq_some_iff.mp second
    obtain ⟨_, before⟩ := List.getElem?_eq_some_iff.mp first
    refine slice?_eq_some_iff.mpr ⟨by omega, ?_⟩
    rw [List.drop_eq_getElem_cons (by omega), List.drop_eq_getElem_cons inside, before, here]
    rfl

/-- A part of a part that is written is a part that is written. -/
theorem splice_splice {l part new : List α} (taken : slice? l start part.length = some part)
    (within : k + new.length ≤ part.length) :
    splice l start (splice part k new) = splice l (start + k) new := by
  have inside := (slice?_eq_some_iff.mp taken).1
  have length := length_splice within
  apply List.ext_getElem?
  intro i
  have right : (splice l (start + k) new)[i]? = _ := getElem?_splice (by omega) i
  rw [getElem?_splice (by omega), length, right]
  by_cases whole : start ≤ i ∧ i < start + part.length
  · obtain ⟨r, rfl⟩ := Nat.exists_eq_add_of_le whole.1
    rw [if_pos whole, Nat.add_sub_cancel_left, getElem?_splice within]
    by_cases changed : k ≤ r ∧ r < k + new.length
    · rw [if_pos changed, if_pos (by omega)]
      congr 1
      omega
    · rw [if_neg changed, if_neg (by omega), getElem?_of_slice? taken (by omega)]
  · rw [if_neg whole, if_neg (by omega)]

/-! ## Little-endian numbers -/

/-- The number with these bytes, the lowest first. -/
def fromLE : List UInt8 → Nat
  | [] => 0
  | byte :: rest => byte.toNat + 256 * fromLE rest

theorem mod_fromLE (byte : UInt8) (rest : List UInt8) :
    fromLE (byte :: rest) % 2 ^ 8 = byte.toNat := by
  have small := byte.toNat_lt
  rw [fromLE]
  omega

theorem div_fromLE (byte : UInt8) (rest : List UInt8) :
    fromLE (byte :: rest) / 2 ^ 8 = fromLE rest := by
  have small := byte.toNat_lt
  rw [fromLE]
  omega

/-- The lowest `width` bytes of a number. -/
def toLE : Nat → Nat → List UInt8
  | 0, _ => []
  | width + 1, value => UInt8.ofNat value :: toLE width (value / 256)

@[simp] theorem length_toLE (width value : Nat) : (toLE width value).length = width := by
  induction width generalizing value with
  | zero => rfl
  | succ width ih => simp [toLE, ih]

theorem fromLE_toLE (width value : Nat) : fromLE (toLE width value) = value % 256 ^ width := by
  induction width generalizing value with
  | zero => simp [toLE, fromLE, Nat.mod_one]
  | succ width ih =>
    have low : (UInt8.ofNat value).toNat = value % 256 := by simp
    rw [toLE, fromLE, ih, low, Nat.pow_succ', Nat.mod_mul]

/-! ## A byte-addressed store -/

variable (store : Nat → UInt8) {new : List UInt8}

/-- `n` bytes of the store from `start` on. -/
def readBytes (start n : Nat) : List UInt8 :=
  (List.range n).map fun i => store (start + i)

/-- The store with the bytes from `start` on replaced. -/
def writeBytes (start : Nat) (new : List UInt8) : Nat → UInt8 :=
  fun a => if start ≤ a ∧ a < start + new.length then new.getD (a - start) 0 else store a

@[simp] theorem length_readBytes (start n : Nat) :
    (readBytes store start n).length = n := by simp [readBytes]

theorem getElem?_readBytes (start : Nat) (below : i < n) :
    (readBytes store start n)[i]? = some (store (start + i)) := by
  simp [readBytes, below]

theorem readBytes_congr {store store' : Nat → UInt8}
    (same : ∀ a, start ≤ a → a < start + n → store a = store' a) :
    readBytes store start n = readBytes store' start n := by
  refine List.map_congr_left fun i mem => ?_
  have := List.mem_range.mp mem
  exact same _ (by omega) (by omega)

theorem writeBytes_outside
    (outside : a < start ∨ start + new.length ≤ a) : writeBytes store start new a = store a := by
  unfold writeBytes
  rw [if_neg (by omega)]

theorem writeBytes_congr {store store' : Nat → UInt8} (same : store a = store' a)
    (start : Nat) (new : List UInt8) :
    writeBytes store start new a = writeBytes store' start new a := by
  unfold writeBytes
  rw [same]

theorem writeBytes_inside (below : i < new.length) :
    some (writeBytes store start new (start + i)) = new[i]? := by
  unfold writeBytes
  rw [if_pos (by omega), Nat.add_sub_cancel_left, List.getD_eq_getElem?_getD,
    List.getElem?_eq_getElem below, Option.getD_some]

theorem slice?_readBytes {m : Nat} (inside : k + m ≤ n) :
    slice? (readBytes store start n) k m = some (readBytes store (start + k) m) := by
  refine slice?_eq_some_iff.mpr ⟨by rwa [length_readBytes], ?_⟩
  apply List.ext_getElem?
  intro i
  by_cases below : i < m
  · rw [List.getElem?_take_of_lt below, List.getElem?_drop, getElem?_readBytes _ _ (by omega),
      getElem?_readBytes _ _ below, add_assoc]
  · rw [List.getElem?_eq_none (by rw [List.length_take]; omega),
      List.getElem?_eq_none (by rw [length_readBytes]; omega)]

/-- Writing what is there changes nothing. -/
theorem writeBytes_eq_self {store : Nat → UInt8}
    (same : ∀ i, i < new.length → new[i]? = some (store (start + i))) :
    writeBytes store start new = store := by
  funext a
  by_cases inside : start ≤ a ∧ a < start + new.length
  · obtain ⟨i, rfl⟩ := Nat.exists_eq_add_of_le inside.1
    have below : i < new.length := by omega
    exact Option.some.inj ((writeBytes_inside store below).trans (same i below))
  · exact writeBytes_outside store (by omega)

section
variable (store : Nat → UInt8)

/-- Writing back what was read with a part of it changed writes the part. -/
theorem writeBytes_splice {new : List UInt8} (within : k + new.length ≤ n) :
    writeBytes store start (splice (readBytes store start n) k new) =
      writeBytes store (start + k) new := by
  have fits : k + new.length ≤ (readBytes store start n).length := by rwa [length_readBytes]
  have length : (splice (readBytes store start n) k new).length = n := by
    rw [length_splice fits, length_readBytes]
  funext a
  by_cases whole : start ≤ a ∧ a < start + n
  · obtain ⟨i, rfl⟩ := Nat.exists_eq_add_of_le whole.1
    have below : i < n := by omega
    have written : some (writeBytes store start (splice (readBytes store start n) k new)
        (start + i)) = (splice (readBytes store start n) k new)[i]? :=
      writeBytes_inside store (by omega)
    rw [getElem?_splice fits] at written
    apply Option.some.inj
    by_cases changed : k ≤ i ∧ i < k + new.length
    · obtain ⟨j, rfl⟩ := Nat.exists_eq_add_of_le changed.1
      have part : some (writeBytes store (start + k) new (start + k + j)) = new[j]? :=
        writeBytes_inside store (by omega)
      rw [if_pos changed, Nat.add_sub_cancel_left] at written
      rw [written, ← part, Nat.add_assoc]
    · have kept : writeBytes store (start + k) new (start + i) = store (start + i) :=
        writeBytes_outside store (by omega)
      rw [if_neg changed, getElem?_readBytes _ _ below] at written
      rw [written, kept]
  · rw [writeBytes_outside store (by omega), writeBytes_outside store (by omega)]

theorem readBytes_add (start m n : Nat) :
    readBytes store start (m + n) = readBytes store start m ++ readBytes store (start + m) n := by
  unfold readBytes
  rw [List.range_add, List.map_append, List.map_map]
  congr 2
  funext i
  show store _ = store _
  rw [add_assoc]

theorem readBytes_succ (start n : Nat) :
    readBytes store start (n + 1) = store start :: readBytes store (start + 1) n := by
  rw [add_comm, readBytes_add]
  rfl

/-- Two writes one after the other are one write. -/
theorem writeBytes_writeBytes (start : Nat) (first second : List UInt8) :
    writeBytes (writeBytes store start first) (start + first.length) second =
      writeBytes store start (first ++ second) := by
  funext a
  by_cases inSecond : start + first.length ≤ a ∧ a < start + first.length + second.length
  · obtain ⟨i, rfl⟩ := Nat.exists_eq_add_of_le inSecond.1
    apply Option.some.inj
    rw [writeBytes_inside _ (by omega), Nat.add_assoc start,
      writeBytes_inside _ (by rw [List.length_append]; omega),
      List.getElem?_append_right (by omega), Nat.add_sub_cancel_left]
  · rw [writeBytes_outside _ (by omega)]
    by_cases inFirst : start ≤ a ∧ a < start + first.length
    · obtain ⟨i, rfl⟩ := Nat.exists_eq_add_of_le inFirst.1
      apply Option.some.inj
      rw [writeBytes_inside _ (by omega), writeBytes_inside _ (by rw [List.length_append]; omega),
        List.getElem?_append_left (by omega)]
    · rw [writeBytes_outside _ (by omega), writeBytes_outside _ (by rw [List.length_append]; omega)]

/-- Reading back what was written. -/
theorem readBytes_writeBytes_same (start : Nat) (new : List UInt8) :
    readBytes (writeBytes store start new) start new.length = new := by
  apply List.ext_getElem?
  intro i
  by_cases below : i < new.length
  · rw [getElem?_readBytes _ _ below, writeBytes_inside store below]
  · rw [List.getElem?_eq_none (by rw [length_readBytes]; omega), List.getElem?_eq_none (by omega)]

end

end Emerald
