
import Mathlib

/-!
# Byte positions in strings

A string is a list of characters, and positions in it are numbers of bytes of its UTF-8 encoding. A
string can be cut only between two characters.
-/

namespace Emerald
variable (s : List Char) {n : Nat}

/-- The length of a string in bytes. -/
def utf8Len : Nat := (s.map Char.utf8Size).sum

/-- The bytes of a string. -/
def utf8Bytes : List UInt8 := s.flatMap String.utf8EncodeChar

/-- The parts of a string before and after a position; `none` if the position is inside a character
or after the end. -/
def splitAtByte : Nat → List Char → Option (List Char × List Char)
  | 0, s => some ([], s)
  | _ + 1, [] => none
  | n + 1, c :: s =>
    if c.utf8Size ≤ n + 1 then
      (splitAtByte (n + 1 - c.utf8Size) s).map fun parts => (c :: parts.1, parts.2)
    else none

/-- A position between two characters, or at an end of the string. -/
def IsCharBoundary (n : Nat) : Prop :=
  ∃ part rest, s = part ++ rest ∧ utf8Len part = n

@[simp] theorem utf8Len_nil : utf8Len [] = 0 := rfl

@[simp] theorem utf8Len_cons (c : Char) (s : List Char) :
    utf8Len (c :: s) = c.utf8Size + utf8Len s := by
  simp [utf8Len]

@[simp] theorem utf8Len_append (s t : List Char) : utf8Len (s ++ t) = utf8Len s + utf8Len t := by
  simp [utf8Len]

theorem length_le_utf8Len : s.length ≤ utf8Len s := by
  induction s with
  | nil => exact le_rfl
  | cons c s ih =>
    have size := c.utf8Size_pos
    rw [List.length_cons, utf8Len_cons]
    omega

theorem utf8Len_eq_zero {s : List Char} (empty : utf8Len s = 0) : s = [] := by
  have length := length_le_utf8Len s
  exact List.eq_nil_of_length_eq_zero (by omega)

/-- Of two beginnings of a string the one with fewer bytes is a beginning of the other. -/
theorem append_eq_append_of_utf8Len_le {part rest part' rest' : List Char}
    (same : part ++ rest = part' ++ rest') (fewer : utf8Len part ≤ utf8Len part') :
    ∃ middle, part' = part ++ middle ∧ rest = middle ++ rest' := by
  rcases List.append_eq_append_iff.mp same with ⟨middle, longer, after⟩ | ⟨middle, longer, after⟩
  · exact ⟨middle, longer, after⟩
  · subst longer
    rw [utf8Len_append] at fewer
    obtain rfl := utf8Len_eq_zero (s := middle) (by omega)
    exact ⟨[], by simp, by simpa using after.symm⟩

theorem splitAtByte_append (part rest : List Char) :
    splitAtByte (utf8Len part) (part ++ rest) = some (part, rest) := by
  induction part with
  | nil =>
    cases rest <;> rfl
  | cons c part ih =>
    have size := c.utf8Size_pos
    obtain ⟨n, bytes⟩ : ∃ n, utf8Len (c :: part) = n + 1 :=
      ⟨utf8Len (c :: part) - 1, by rw [utf8Len_cons]; omega⟩
    have after : n + 1 - c.utf8Size = utf8Len part := by
      rw [← bytes, utf8Len_cons, Nat.add_sub_cancel_left]
    rw [bytes, List.cons_append, splitAtByte, if_pos, after, ih]
    · rfl
    · rw [← bytes]
      exact Nat.le_add_right ..

theorem append_of_splitAtByte {s part rest : List Char}
    (split : splitAtByte n s = some (part, rest)) : s = part ++ rest ∧ utf8Len part = n := by
  induction s generalizing n part with
  | nil =>
    cases n with
    | zero =>
      cases split
      exact ⟨rfl, rfl⟩
    | succ n => cases split
  | cons c s ih =>
    cases n with
    | zero =>
      cases split
      exact ⟨rfl, rfl⟩
    | succ n =>
      unfold splitAtByte at split
      split at split
      · rename_i fits
        obtain ⟨⟨part', rest'⟩, inner, result⟩ := Option.map_eq_some_iff.mp split
        cases result
        obtain ⟨rfl, length⟩ := ih inner
        refine ⟨rfl, ?_⟩
        rw [utf8Len_cons, length, Nat.add_sub_of_le fits]
      · cases split

theorem isCharBoundary_iff {s : List Char} :
    IsCharBoundary s n ↔ ∃ parts, splitAtByte n s = some parts := by
  constructor
  · rintro ⟨part, rest, rfl, rfl⟩
    exact ⟨_, splitAtByte_append part rest⟩
  · rintro ⟨⟨part, rest⟩, split⟩
    obtain ⟨same, length⟩ := append_of_splitAtByte split
    exact ⟨part, rest, same, length⟩

instance (s : List Char) (n : Nat) : Decidable (IsCharBoundary s n) :=
  decidable_of_iff ((splitAtByte n s).isSome) (by
    rw [isCharBoundary_iff, Option.isSome_iff_exists])

/-- The positions after the first part of a string. -/
theorem isCharBoundary_append {part rest : List Char} {m : Nat} (length : utf8Len part = m) :
    IsCharBoundary (part ++ rest) (m + n) ↔ IsCharBoundary rest n := by
  subst length
  constructor
  · rintro ⟨part', rest', same, length⟩
    obtain ⟨middle, rfl, rfl⟩ := append_eq_append_of_utf8Len_le same (by omega)
    rw [utf8Len_append] at length
    exact ⟨middle, rest', rfl, by omega⟩
  · rintro ⟨middle, rest', rfl, rfl⟩
    exact ⟨part ++ middle, rest', by rw [List.append_assoc], utf8Len_append ..⟩

theorem isCharBoundary_zero : IsCharBoundary s 0 := ⟨[], s, rfl, rfl⟩

theorem isCharBoundary_utf8Len : IsCharBoundary s (utf8Len s) :=
  ⟨s, [], (List.append_nil s).symm, rfl⟩

end Emerald
