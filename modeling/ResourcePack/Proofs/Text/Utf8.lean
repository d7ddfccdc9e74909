import Mathlib.Algebra.Group.Nat.Defs
import ResourcePack.Text.Utf8

/-!
# Texts as bytes and back

The first byte of a character tells by its mark how many there are. What is left of it and of
the others are the digits of the number of the character in base 64. So every text is read back
from its bytes.
-/

namespace ResourcePack

namespace Utf8

/-! ## Single bytes -/

theorem tailBits?_ofNat : ∀ n < 64, tailBits? (UInt8.ofNat (n + 128)) = some (UInt32.ofNat n) := by
  decide

theorem lead_of_one : ∀ n < 128, UInt8.ofNat n &&& 0x80 = 0 ∧
    (UInt8.ofNat n).toUInt32 = UInt32.ofNat n := by
  decide

theorem lead_of_two : ∀ n < 32, UInt8.ofNat (n + 192) &&& 0x80 ≠ 0 ∧
    UInt8.ofNat (n + 192) &&& 0xE0 = 0xC0 ∧
    (UInt8.ofNat (n + 192) &&& 0x1F).toUInt32 = UInt32.ofNat n := by
  decide

theorem lead_of_three : ∀ n < 16, UInt8.ofNat (n + 224) &&& 0x80 ≠ 0 ∧
    UInt8.ofNat (n + 224) &&& 0xE0 ≠ 0xC0 ∧ UInt8.ofNat (n + 224) &&& 0xF0 = 0xE0 ∧
    (UInt8.ofNat (n + 224) &&& 0x0F).toUInt32 = UInt32.ofNat n := by
  decide

theorem lead_of_four : ∀ n < 8, UInt8.ofNat (n + 240) &&& 0x80 ≠ 0 ∧
    UInt8.ofNat (n + 240) &&& 0xE0 ≠ 0xC0 ∧ UInt8.ofNat (n + 240) &&& 0xF0 ≠ 0xE0 ∧
    UInt8.ofNat (n + 240) &&& 0xF8 = 0xF0 ∧
    (UInt8.ofNat (n + 240) &&& 0x07).toUInt32 = UInt32.ofNat n := by
  decide

/-! ## Characters -/

theorem ofNat_shiftLeft {n k : Nat} (fits : 2 ^ k * n < 2 ^ 32) (short : k < 32) :
    UInt32.ofNat n <<< UInt32.ofNat k = UInt32.ofNat (2 ^ k * n) := by
  have least : n < 2 ^ 32 := Nat.lt_of_le_of_lt (Nat.le_mul_of_pos_left n (Nat.two_pow_pos k)) fits
  have width : (UInt32.ofNat k).toNat % 32 = k := by
    rw [UInt32.toNat_ofNat_of_lt' (Nat.lt_trans short (by decide)), Nat.mod_eq_of_lt short]
  apply UInt32.toNat_inj.mp
  rw [UInt32.toNat_shiftLeft, width, UInt32.toNat_ofNat_of_lt' least,
    UInt32.toNat_ofNat_of_lt' fits, Nat.shiftLeft_eq, Nat.mul_comm, Nat.mod_eq_of_lt fits]

theorem ofNat_or {n low k : Nat} (small : low < 2 ^ k) (fits : 2 ^ k * n + low < 2 ^ 32) :
    UInt32.ofNat (2 ^ k * n) ||| UInt32.ofNat low = UInt32.ofNat (2 ^ k * n + low) := by
  apply UInt32.toNat_inj.mp
  rw [UInt32.toNat_or, UInt32.toNat_ofNat_of_lt' (Nat.lt_of_le_of_lt (Nat.le_add_right _ _) fits),
    UInt32.toNat_ofNat_of_lt' (Nat.lt_of_le_of_lt (Nat.le_add_left _ _) fits),
    UInt32.toNat_ofNat_of_lt' fits, Nat.two_pow_add_eq_or_of_lt small]

/-- A character is found under its number. -/
theorem char?_val {c : Char} {least : UInt32} (enough : least ≤ c.val) :
    char? least c.val = some c := by
  rw [char?, dif_pos c.valid, if_pos enough]

section

variable {c : Char} {v : Nat} (number : c.val = UInt32.ofNat v)
include number

theorem le_val {least : Nat} (below : least ≤ v) (small : v < 0x110000) :
    UInt32.ofNat least ≤ c.val := by
  have fits : v < UInt32.size := Nat.lt_trans small (by decide)
  rw [number, UInt32.le_iff_toNat_le, UInt32.toNat_ofNat_of_lt' fits,
    UInt32.toNat_ofNat_of_lt' (Nat.lt_of_le_of_lt below fits)]
  exact below

theorem char2?_ofNat (least : 0x80 ≤ v) (small : v < 0x800) :
    char2? (.ofNat (v / 64 % 32 + 192)) (.ofNat (v % 64 + 128)) = some c := by
  have code : UInt32.ofNat (v / 64 % 32) <<< UInt32.ofNat 6 ||| UInt32.ofNat (v % 64) = c.val := by
    rw [ofNat_shiftLeft (by omega) (by decide), ofNat_or (by omega) (by omega), number]
    congr 1
    omega
  rw [char2?, tailBits?_ofNat _ (by omega), (lead_of_two _ (by omega)).2.2]
  exact (congrArg (char? 0x80) code).trans (char?_val (le_val number least (by omega)))

theorem char3?_ofNat (least : 0x800 ≤ v) (small : v < 0x10000) :
    char3? (.ofNat (v / 4096 % 16 + 224)) (.ofNat (v / 64 % 64 + 128)) (.ofNat (v % 64 + 128)) =
      some c := by
  have code : UInt32.ofNat (v / 4096 % 16) <<< UInt32.ofNat 12 |||
      UInt32.ofNat (v / 64 % 64) <<< UInt32.ofNat 6 ||| UInt32.ofNat (v % 64) = c.val := by
    rw [ofNat_shiftLeft (by omega) (by decide), ofNat_shiftLeft (by omega) (by decide),
      ofNat_or (by omega) (by omega)]
    have first : 2 ^ 12 * (v / 4096 % 16) + 2 ^ 6 * (v / 64 % 64) = 2 ^ 6 * (v / 64) := by omega
    rw [first, ofNat_or (by omega) (by omega), number]
    congr 1
    omega
  rw [char3?, tailBits?_ofNat _ (by omega), tailBits?_ofNat _ (by omega),
    (lead_of_three _ (by omega)).2.2.2]
  exact (congrArg (char? 0x800) code).trans (char?_val (le_val number least (by omega)))

theorem char4?_ofNat (least : 0x10000 ≤ v) (small : v < 0x110000) :
    char4? (.ofNat (v / 262144 % 8 + 240)) (.ofNat (v / 4096 % 64 + 128))
      (.ofNat (v / 64 % 64 + 128)) (.ofNat (v % 64 + 128)) = some c := by
  have code : UInt32.ofNat (v / 262144 % 8) <<< UInt32.ofNat 18 |||
      UInt32.ofNat (v / 4096 % 64) <<< UInt32.ofNat 12 |||
      UInt32.ofNat (v / 64 % 64) <<< UInt32.ofNat 6 ||| UInt32.ofNat (v % 64) = c.val := by
    rw [ofNat_shiftLeft (by omega) (by decide), ofNat_shiftLeft (by omega) (by decide),
      ofNat_shiftLeft (by omega) (by decide), ofNat_or (by omega) (by omega)]
    have first : 2 ^ 18 * (v / 262144 % 8) + 2 ^ 12 * (v / 4096 % 64) = 2 ^ 12 * (v / 4096) := by
      omega
    rw [first, ofNat_or (by omega) (by omega)]
    have second : 2 ^ 12 * (v / 4096) + 2 ^ 6 * (v / 64 % 64) = 2 ^ 6 * (v / 64) := by omega
    rw [second, ofNat_or (by omega) (by omega), number]
    congr 1
    omega
  rw [char4?, tailBits?_ofNat _ (by omega), tailBits?_ofNat _ (by omega),
    tailBits?_ofNat _ (by omega), (lead_of_four _ (by omega)).2.2.2.2]
  exact (congrArg (char? 0x10000) code).trans (char?_val (le_val number least small))

end

/-- Every character is read from its own bytes. -/
theorem decodeFrom_encodeChar (done : List Char) (c : Char) (rest : Bytes) :
    decodeFrom done (String.utf8EncodeChar c ++ rest) = decodeFrom (c :: done) rest := by
  have bound : c.val.toNat < 0x110000 := by
    obtain below | ⟨-, below⟩ := c.valid
    · exact Nat.lt_trans below (by decide)
    · exact below
  have number : c.val = UInt32.ofNat c.val.toNat := UInt32.ofNat_toNat.symm
  unfold String.utf8EncodeChar
  generalize c.val.toNat = v at bound number
  simp only
  split
  · obtain ⟨one, same⟩ := lead_of_one v (by omega)
    have char : Char.ofUInt8 (.ofNat v) = c := Char.ext (same.trans number.symm)
    rw [List.singleton_append, decodeFrom.eq_def]
    simp only [if_pos one, char]
  · split
    · obtain ⟨several, two, -⟩ := lead_of_two (v / 64 % 32) (by omega)
      simp only [List.cons_append, List.nil_append]
      rw [decodeFrom, if_neg several, if_pos two]
      simp only [char2?_ofNat number (by omega) (by omega)]
    · split
      · obtain ⟨several, notTwo, three, -⟩ := lead_of_three (v / 4096 % 16) (by omega)
        simp only [List.cons_append, List.nil_append]
        rw [decodeFrom, if_neg several, if_neg notTwo, if_pos three]
        simp only [char3?_ofNat number (by omega) (by omega)]
      · obtain ⟨several, notTwo, notThree, four, -⟩ := lead_of_four (v / 262144 % 8) (by omega)
        simp only [List.cons_append, List.nil_append]
        rw [decodeFrom, if_neg several, if_neg notTwo, if_neg notThree, if_pos four]
        simp only [char4?_ofNat number (by omega) (by omega)]

theorem decodeFrom_flatMap (done text : List Char) :
    decodeFrom done (text.flatMap String.utf8EncodeChar) = some (done.reverse ++ text) := by
  induction text generalizing done with
  | nil => simp [decodeFrom]
  | cons c text ih => simp [decodeFrom_encodeChar, ih]

/-- Every text is read back from its bytes. -/
theorem decode?_encode (text : String) : decode? (encode text) = some text := by
  simp [decode?, encode, decodeFrom_flatMap]

end Utf8

end ResourcePack
