import Mathlib.Data.List.Induction
import Mathlib.Data.Nat.Digits.Defs
import ResourcePack.Checksum

/-!
# What bytes count

The number that bytes stand for in either order, said by its digits, and as a signed
number. Words are read and written by shifts; here is what they come to, and what is left
of a byte string that a word is taken off.
-/

namespace ResourcePack

namespace Word

/-- The number with these digits in base 256, the least significant one first. -/
def littleEndianValue (bytes : Bytes) : Nat :=
  Nat.ofDigits 0x100 (bytes.map UInt8.toNat)

/-- The number with these digits in base 256, the most significant one first. -/
def bigEndianValue (bytes : Bytes) : Nat :=
  littleEndianValue bytes.reverse

/-- The number that little-endian bytes stand for in two's complement. -/
def signedValue (bytes : Bytes) : Int :=
  if 2 * littleEndianValue bytes < 0x100 ^ bytes.length then littleEndianValue bytes
  else littleEndianValue bytes - (0x100 ^ bytes.length : Nat)

@[simp] theorem littleEndianValue_nil : littleEndianValue [] = 0 := rfl

theorem littleEndianValue_cons (byte : UInt8) (bytes : Bytes) :
    littleEndianValue (byte :: bytes) = byte.toNat + 0x100 * littleEndianValue bytes := by
  simp [littleEndianValue, Nat.ofDigits_cons]

@[simp] theorem bigEndianValue_nil : bigEndianValue [] = 0 := rfl

theorem bigEndianValue_concat (bytes : Bytes) (byte : UInt8) :
    bigEndianValue (bytes ++ [byte]) = 0x100 * bigEndianValue bytes + byte.toNat := by
  rw [bigEndianValue, List.reverse_append, List.reverse_singleton, List.singleton_append,
    littleEndianValue_cons, bigEndianValue, Nat.add_comm]

theorem bigEndianValue_lt (bytes : Bytes) : bigEndianValue bytes < 0x100 ^ bytes.length := by
  induction bytes using List.reverseRecOn with
  | nil => simp
  | append_singleton bytes byte ih =>
      have digit := byte.toNat_lt
      rw [bigEndianValue_concat, List.length_append, List.length_singleton, Nat.pow_succ]
      omega

theorem toNat_ofLittleEndian_eq_value (a b c d : UInt8) :
    (ofLittleEndian a b c d).toNat = littleEndianValue [a, b, c, d] := by
  simp only [toNat_ofLittleEndian, littleEndianValue_cons, littleEndianValue_nil]
  omega

theorem toInt_ofLittleEndian (a b c d : UInt8) :
    (ofLittleEndian a b c d).toInt32.toInt = signedValue [a, b, c, d] := by
  have number : (ofLittleEndian a b c d).toBitVec.toNat = littleEndianValue [a, b, c, d] :=
    toNat_ofLittleEndian_eq_value a b c d
  have width : 0x100 ^ [a, b, c, d].length = 2 ^ 32 := by
    rw [List.length_cons, List.length_cons, List.length_cons, List.length_singleton]
    norm_num
  change (ofLittleEndian a b c d).toBitVec.toInt = _
  rw [BitVec.toInt_eq_toNat_cond, number, signedValue, width]

/-- The first word of a byte string is made of its first four bytes. -/
theorem takeLittleEndian?_eq_some {data : Bytes} {next : UInt32 × Bytes}
    (taken : takeLittleEndian? data = some next) :
    ∃ a b c d rest, data = a :: b :: c :: d :: rest ∧ next = (ofLittleEndian a b c d, rest) := by
  unfold takeLittleEndian? at taken
  split at taken
  · rename_i a b c d rest
    exact ⟨a, b, c, d, rest, rfl, (Option.some.inj taken).symm⟩
  · cases taken

theorem takeLittleEndian?_of_le (data : Bytes) (long : 4 ≤ data.length) :
    ∃ word, takeLittleEndian? data = some (word, data.drop 4) := by
  obtain _ | ⟨a, _ | ⟨b, _ | ⟨c, _ | ⟨d, rest⟩⟩⟩⟩ := data
  case cons.cons.cons.cons => exact ⟨ofLittleEndian a b c d, rfl⟩
  all_goals simp at long

theorem takeLittleEndian?_drop (data : Bytes) (place : Nat) (long : place + 4 ≤ data.length) :
    ∃ word, takeLittleEndian? (data.drop place) = some (word, data.drop (place + 4)) := by
  have rest : 4 ≤ (data.drop place).length := by
    rw [List.length_drop]
    omega
  obtain ⟨word, taken⟩ := takeLittleEndian?_of_le (data.drop place) rest
  rw [List.drop_drop] at taken
  exact ⟨word, taken⟩

theorem length_of_takeLittleEndian? {data : Bytes} {next : UInt32 × Bytes}
    (taken : takeLittleEndian? data = some next) : data.length = next.2.length + 4 := by
  obtain ⟨a, b, c, d, rest, rfl, rfl⟩ := takeLittleEndian?_eq_some taken
  rfl

theorem toNat_of_takeLittleEndian? {data : Bytes} {next : UInt32 × Bytes}
    (taken : takeLittleEndian? data = some next) :
    next.1.toNat = littleEndianValue (data.take 4) := by
  obtain ⟨a, b, c, d, rest, rfl, rfl⟩ := takeLittleEndian?_eq_some taken
  exact toNat_ofLittleEndian_eq_value a b c d

theorem toInt_of_takeLittleEndian? {data : Bytes} {next : UInt32 × Bytes}
    (taken : takeLittleEndian? data = some next) :
    next.1.toInt32.toInt = signedValue (data.take 4) := by
  obtain ⟨a, b, c, d, rest, rfl, rfl⟩ := takeLittleEndian?_eq_some taken
  exact toInt_ofLittleEndian a b c d

end Word

namespace Checksum

/-- A last piece of fewer than four bytes is loaded as one big-endian number. -/
theorem toNat_tailWord {tail : Bytes} (short : tail.length ≤ 4) :
    (tailWord tail).toNat = Word.bigEndianValue tail := by
  induction tail using List.reverseRecOn with
  | nil => rfl
  | append_singleton tail byte ih =>
      rw [List.length_append, List.length_singleton] at short
      have digit := byte.toNat_lt
      have bound : Word.bigEndianValue tail < 0x1000000 :=
        Nat.lt_of_lt_of_le (Word.bigEndianValue_lt tail)
          (Nat.pow_le_pow_right (n := 0x100) (by decide) (by omega : tail.length ≤ 3))
      have step : tailWord (tail ++ [byte]) = tailWord tail <<< 8 ||| byte.toUInt32 := by
        rw [tailWord, List.foldl_append]
        rfl
      have moved : (tailWord tail <<< 8).toNat = 2 ^ 8 * Word.bigEndianValue tail := by
        rw [UInt32.toNat_shiftLeft, ih (by omega), Nat.shiftLeft_eq]
        change Word.bigEndianValue tail * 2 ^ 8 % 2 ^ 32 = _
        omega
      rw [step, UInt32.toNat_or, moved, UInt8.toNat_toUInt32,
        ← Nat.two_pow_add_eq_or_of_lt (i := 8) digit, Word.bigEndianValue_concat]

end Checksum

end ResourcePack
