
import Emerald.Misc.Bytes

/-!
# EISA identifiers

`parse_eisa_id` of `kernel/src/acpi/aml/parser/mod.rs`: the identifier of a device is stored as a
32-bit integer, with five bits a letter. It decodes what the compression of the ACPI specification
makes of an identifier.
-/

namespace Emerald.Acpi

/-- A digit as `{:X}` prints it. -/
def hexDigit (digit : Nat) : Char := digit.digitChar.toUpper

/-- `{byte:02X}`. -/
def hexByte (byte : Nat) : List Char := [hexDigit (byte / 16), hexDigit (byte % 16)]

/-- `parse_eisa_id`. -/
def parseEisaId (id : Nat) : String :=
  let byte2 := (id >>> 16) &&& 0xFF
  let byte3 := (id >>> 24) &&& 0xFF
  let manufacturerByte0 := id &&& 0xFF
  let manufacturerByte1 := (id >>> 8) &&& 0xFF
  let manufacturerList := [
    manufacturerByte0 >>> 2,
    ((manufacturerByte0 &&& 0x03) <<< 3) ||| (manufacturerByte1 >>> 5),
    manufacturerByte1 &&& 0x1F]
  let manuf := manufacturerList.map fun c => Char.ofNat ((c + 0x40) % 256)
  String.ofList (manuf ++ hexByte byte2 ++ hexByte byte3)

/-- An identifier: three letters, counted from `A`, and the number that four hexadecimal digits
write. -/
structure EisaId where
  first : Fin 26
  second : Fin 26
  third : Fin 26
  number : Fin (2 ^ 16)

namespace EisaId
variable (id : EisaId)

/-- The identifier as it is written, such as `PNP0A03`. -/
def text : String :=
  let letters := [id.first, id.second, id.third].map fun l => Char.ofNat ('A'.toNat + l.val)
  String.ofList (letters ++ hexByte (id.number / 2 ^ 8) ++ hexByte (id.number % 2 ^ 8))

/-- All capital letters and upper-case digits are written by an identifier. -/
theorem exists_text {a b c d e f g : Char}
    (letters : ∀ x ∈ [a, b, c], x ∈ "ABCDEFGHIJKLMNOPQRSTUVWXYZ".toList)
    (digits : ∀ x ∈ [d, e, f, g], x ∈ "0123456789ABCDEF".toList) :
    ∃ id : EisaId, id.text = String.ofList [a, b, c, d, e, f, g] := by
  have numbered {n : Nat} {f : Nat → Char} {x : Char} (mem : x ∈ (List.range n).map f) :
      ∃ k : Fin n, f k = x := by
    obtain ⟨k, below, rfl⟩ := List.mem_map.mp mem
    exact ⟨⟨k, List.mem_range.mp below⟩, rfl⟩
  rw [show "ABCDEFGHIJKLMNOPQRSTUVWXYZ".toList =
    (List.range 26).map fun n => Char.ofNat ('A'.toNat + n) from rfl] at letters
  rw [show "0123456789ABCDEF".toList = (List.range 16).map hexDigit from rfl] at digits
  simp only [List.forall_mem_cons, List.not_mem_nil, false_implies, implies_true,
    and_true] at letters digits
  obtain ⟨first, rfl⟩ := numbered letters.1
  obtain ⟨second, rfl⟩ := numbered letters.2.1
  obtain ⟨third, rfl⟩ := numbered letters.2.2
  obtain ⟨n, rfl⟩ := numbered digits.1
  obtain ⟨m, rfl⟩ := numbered digits.2.1
  obtain ⟨k, rfl⟩ := numbered digits.2.2.1
  obtain ⟨l, rfl⟩ := numbered digits.2.2.2
  refine ⟨⟨first, second, third, ⟨(n * 16 + m) * 2 ^ 8 + (k * 16 + l), by omega⟩⟩, ?_⟩
  have high : ((n * 16 + m) * 2 ^ 8 + (k * 16 + l)) / 2 ^ 8 = (n * 16 + m : Nat) := by omega
  have low : ((n * 16 + m) * 2 ^ 8 + (k * 16 + l)) % 2 ^ 8 = (k * 16 + l : Nat) := by omega
  have quotient (x y : Fin 16) : (x * 16 + y : Nat) / 16 = x := by omega
  have remainder (x y : Fin 16) : (x * 16 + y : Nat) % 16 = y := by omega
  simp only [text, high, low, hexByte, quotient, remainder]
  rfl

/-- Five bits a letter, `A` is one. -/
def manufacturer : Nat := (id.first + 1) * 2 ^ 10 + (id.second + 1) * 2 ^ 5 + (id.third + 1)

/-- The compressed identifier: the letters and the number, with the bytes swapped. -/
def compress : Nat := fromLE (toLE 4 (id.manufacturer * 2 ^ 16 + id.number)).reverse

/-- The bytes of the compressed identifier. -/
theorem compress_bytes :
    id.compress &&& 0xFF = id.manufacturer / 2 ^ 8 ∧
      id.compress >>> 8 &&& 0xFF = id.manufacturer % 2 ^ 8 ∧
      id.compress >>> 16 &&& 0xFF = id.number / 2 ^ 8 ∧
      id.compress >>> 24 &&& 0xFF = id.number % 2 ^ 8 := by
  have small : id.manufacturer < 2 ^ 15 := by
    unfold manufacturer
    omega
  have mask (n : Nat) : n &&& 0xFF = n % 2 ^ 8 := Nat.and_two_pow_sub_one_eq_mod n 8
  have shift (n k : Nat) : n >>> (8 + k) = (n / 2 ^ 8) >>> k := by
    rw [Nat.shiftRight_add, Nat.shiftRight_eq_div_pow n 8]
  rw [shift _ 0, shift _ 8, shift _ 16, shift _ 0, shift _ 8, shift _ 0]
  simp only [mask, compress, toLE, List.reverse_cons, List.reverse_nil, List.nil_append,
    List.cons_append, mod_fromLE, div_fromLE, UInt8.toNat_ofNat', Nat.shiftRight_zero]
  omega

/-- Decoding a compressed identifier gives the identifier. -/
theorem parseEisaId_compress : parseEisaId id.compress = id.text := by
  obtain ⟨low, high, byte2, byte3⟩ := id.compress_bytes
  have first : (id.manufacturer / 2 ^ 8) >>> 2 = id.first + 1 := by
    unfold manufacturer
    omega
  -- the second letter straddles the two bytes
  have second : (id.manufacturer / 2 ^ 8 &&& 0x03) <<< 3 ||| (id.manufacturer % 2 ^ 8) >>> 5 =
      id.second + 1 := by
    rw [Nat.and_two_pow_sub_one_eq_mod _ 2, ← Nat.shiftLeft_add_eq_or_of_lt (by omega)]
    unfold manufacturer
    omega
  have third : id.manufacturer % 2 ^ 8 &&& 0x1F = id.third + 1 := by
    rw [Nat.and_two_pow_sub_one_eq_mod _ 5]
    unfold manufacturer
    omega
  have letter (n : Fin 26) : Char.ofNat ((n + 1 + 0x40) % 256) = Char.ofNat ('A'.toNat + n) := by
    rw [Nat.mod_eq_of_lt (by omega), add_assoc, add_comm]
    rfl
  simp only [parseEisaId, text, low, high, byte2, byte3, first, second, third, List.map_cons,
    List.map_nil, letter]

end EisaId

end Emerald.Acpi
