
import Emerald.Fs.Fat.EntryNames

/-!
# The numbers of short names

A new name whose short name is taken already gets the next number, `NAME~1` first. The number grows
to the left, over the `~`: from ten on it is no longer there, and the next increment panics.
-/

namespace Emerald.Fs
variable {x : List UInt8} (ext : List UInt8)

/-- `increment_short_name`, a number of times. -/
def increments : Nat → List UInt8 → Option (List UInt8)
  | 0, shortName => some shortName
  | count + 1, shortName => (increments count shortName).bind incrementShortName

/-- The base name is made of a beginning of `x`, a `~` and the digits of a number. -/
def IsNumbered (x : List UInt8) (number : Nat) (shortName : List UInt8) : Prop :=
  ∃ start, start <+: x ∧ shortName.take 8 = start ++ 0x7E :: decimal number

/-- The short names from `x~1` on carry the numbers up to a bound, and no two are the same. -/
structure NumberedUpTo (x ext : List UInt8) (bound : Nat) : Prop where
  numbered : ∀ n, 1 ≤ n → n ≤ bound → ∃ shortName,
    increments (n - 1) (x ++ [0x7E, 0x31] ++ ext) = some shortName ∧ IsNumbered x n shortName
  different : ∀ m n, 1 ≤ m → m < n → n ≤ bound →
    increments (m - 1) (x ++ [0x7E, 0x31] ++ ext) ≠ increments (n - 1) (x ++ [0x7E, 0x31] ++ ext)

/-- The number of a digit, and the digits of the next one. -/
theorem decimal_next : ∀ n ≤ 9, (0x30 ≤ UInt8.ofNat (0x30 + n) ∧ UInt8.ofNat (0x30 + n) ≤ 0x39) ∧
      (UInt8.ofNat (0x30 + n) - 0x30).toNat = n ∧
      decimal (n + 1) = if n < 9 then [UInt8.ofNat (0x30 + (n + 1))] else [0x31, 0x30] := by
  decide

section
variable (six : x.length = 6) (free : 0x7E ∉ x) {n : Nat}
include six free

/-- From a number of one digit, the increment is that of the digit, and after nine the `~` is
overwritten. -/
theorem incrementShortName_digit (digit : n ≤ 9) :
    incrementShortName (x ++ [0x7E, UInt8.ofNat (0x30 + n)] ++ ext) = some (x ++
      (if n < 9 then [0x7E, UInt8.ofNat (0x30 + (n + 1))] else [0x31, 0x30]) ++ ext) := by
  have base : (x ++ [0x7E, UInt8.ofNat (0x30 + n)] ++ ext).take 8 =
      x ++ [0x7E, UInt8.ofNat (0x30 + n)] := List.take_left' (by simp [six])
  have found : (x ++ [0x7E, UInt8.ofNat (0x30 + n)]).findIdx? (· == 0x7E) = some 6 := by
    have none : x.findIdx? (· == 0x7E) = none := by
      rw [List.findIdx?_eq_none_iff]
      intro c mem
      exact beq_false_of_ne fun same => free (same ▸ mem)
    simp [none, List.findIdx?_cons, six]
  have after : (x ++ [0x7E, UInt8.ofNat (0x30 + n)]).drop 7 = [UInt8.ofNat (0x30 + n)] := by
    rw [List.drop_append, List.drop_eq_nil_of_le (by omega), six]
    rfl
  obtain ⟨isDigit, value, next⟩ := decimal_next n digit
  simp only [incrementShortName, base, found, some_bind, after, List.foldlM_cons, List.foldlM_nil,
    isDigit, and_self, if_true, value, Option.pure_def, zero_mul, zero_add, next]
  rw [if_neg (by decide), if_neg (by omega)]
  by_cases less : n < 9
  · simp [less, splice, List.take_append, List.drop_append, six, List.take_of_length_le]
  · simp [less, splice, List.drop_append, six]

/-- The names up to the ninth. -/
theorem increments_digit (digit : n < 9) :
    increments n (x ++ [0x7E, 0x31] ++ ext) =
      some (x ++ [0x7E, UInt8.ofNat (0x30 + (n + 1))] ++ ext) := by
  induction n with
  | zero => rfl
  | succ n ih =>
    rw [increments, ih (by omega), Option.bind_some,
      incrementShortName_digit ext six free (by omega), if_pos digit]

/-- The tenth name. -/
theorem increments_nine :
    increments 9 (x ++ [0x7E, 0x31] ++ ext) = some (x ++ [0x31, 0x30] ++ ext) := by
  rw [increments, increments_digit ext six free (by decide), Option.bind_some,
    incrementShortName_digit ext six free (by decide), if_neg (by decide)]

end

/-- The short names from `x~1` on are numbered up to a bound exactly if it is at most nine. -/
theorem numberedUpTo_iff (six : x.length = 6) (free : 0x7E ∉ x) (bound : Nat) :
    NumberedUpTo x ext bound ↔ bound ≤ 9 := by
  have taken (a b : UInt8) : (x ++ [a, b] ++ ext).take 8 = x ++ [a, b] :=
    List.take_left' (by simp [six])
  constructor
  · intro right
    by_contra more
    obtain ⟨shortName, tenth, start, begins, base⟩ := right.numbered 10 (by decide) (by omega)
    rw [increments_nine ext six free, Option.some.injEq] at tenth
    rw [← tenth, taken] at base
    have telda : (0x7E : UInt8) ∈ x ++ [0x31, 0x30] := by
      rw [base]
      simp
    simp [free] at telda
  · intro few
    refine ⟨fun n first last => ?_, fun m n first less last same => ?_⟩
    · obtain ⟨n, rfl⟩ := Nat.exists_eq_add_of_le' first
      refine ⟨_, increments_digit ext six free (by omega), x, List.prefix_rfl, ?_⟩
      rw [taken, (decimal_next n (by omega)).2.2, if_pos (by omega), Nat.add_sub_cancel]
    · obtain ⟨m, rfl⟩ := Nat.exists_eq_add_of_le' first
      rw [Nat.add_sub_cancel, increments_digit ext six free (by omega),
        increments_digit ext six free (by omega), Option.some.injEq, List.append_left_inj,
        List.append_right_inj] at same
      have digits := congrArg UInt8.toNat (List.cons.inj (List.cons.inj same).2).1
      rw [UInt8.toNat_ofNat', UInt8.toNat_ofNat'] at digits
      omega

/-- The tenth name after `ABCDEF~1` is `ABCDEF10`, and there is no eleventh. -/
theorem tenth_short_name_loses_telda :
    let shortName : List UInt8 :=
      [0x41, 0x42, 0x43, 0x44, 0x45, 0x46, 0x7E, 0x31, 0x54, 0x58, 0x54]
    increments 9 shortName =
        some [0x41, 0x42, 0x43, 0x44, 0x45, 0x46, 0x31, 0x30, 0x54, 0x58, 0x54] ∧
      increments 10 shortName = none := by
  decide

theorem numberedUpTo_nine :
    NumberedUpTo [0x41, 0x42, 0x43, 0x44, 0x45, 0x46] [0x54, 0x58, 0x54] 9 :=
  (numberedUpTo_iff _ rfl (by decide) 9).mpr (by decide)

end Emerald.Fs
