import Mathlib.Data.Fintype.EquivFin
import Mathlib.Data.Nat.Digits.Lemmas
import ResourcePack.Proofs.Checksum.Order
import ResourcePack.Proofs.Checksum.Streaming

/-!
# Changes inside one piece

A piece of four bytes enters the checksum as one summand, its number times a power of `X`.
Powers of `X` are units, and different pieces of one length have different numbers, so with
everything else fixed the checksum tells all contents of a piece apart, whether it is a full
word or a short last piece. The register before the data is told apart in the same way.
-/

namespace ResourcePack

namespace Word

theorem littleEndianValue_lt (bytes : Bytes) :
    littleEndianValue bytes < 0x100 ^ bytes.length := by
  have bound := bigEndianValue_lt bytes.reverse
  rwa [bigEndianValue, List.reverse_reverse, List.length_reverse] at bound

/-- Bytes are the digits of their number. -/
theorem eq_of_littleEndianValue_eq {a b : Bytes} (length : a.length = b.length)
    (same : littleEndianValue a = littleEndianValue b) : a = b := by
  have digits (bytes : Bytes) : ∀ digit ∈ bytes.map UInt8.toNat, digit < 0x100 := by
    intro digit member
    obtain ⟨byte, -, rfl⟩ := List.mem_map.mp member
    exact byte.toNat_lt
  have numbers : a.map UInt8.toNat = b.map UInt8.toNat :=
    Nat.ofDigits_inj_of_len_eq (by decide) (by simpa using length) (digits a) (digits b) same
  exact List.map_injective_iff.mpr (fun _ _ => UInt8.toNat_inj.mp) numbers

theorem littleEndian_injective : Function.Injective littleEndian := by
  intro v w same
  have taken := takeLittleEndian?_append v []
  rw [same, takeLittleEndian?_append] at taken
  cases taken
  rfl

end Word

namespace Checksum

theorem residue_inj_of_lt {m n : Nat} (hm : m < 2 ^ 32) (hn : n < 2 ^ 32) :
    residue m = residue n ↔ m = n := by
  have words := residue_inj (a := .ofNat m) (b := .ofNat n)
  rwa [← UInt32.toNat_inj, UInt32.toNat_ofNat_of_lt' hm, UInt32.toNat_ofNat_of_lt' hn] at words

theorem length_piece (data : Bytes) (i : Nat) :
    (piece data i).length = min 4 (data.length - 4 * i) := by
  rw [piece, List.length_take, List.length_drop]

theorem pieceValue_piece_lt (data : Bytes) (i : Nat) : pieceValue (piece data i) < 2 ^ 32 := by
  have length := length_piece data i
  have bound : 0x100 ^ (piece data i).length ≤ 0x100 ^ 4 :=
    Nat.pow_le_pow_right (by decide) (by omega)
  rw [pieceValue]
  split
  · exact Nat.lt_of_lt_of_le (Word.littleEndianValue_lt _) bound
  · exact Nat.lt_of_lt_of_le (Word.bigEndianValue_lt _) bound

/-- Pieces of one length are read in the same order. -/
theorem eq_of_pieceValue_eq {a b : Bytes} (length : a.length = b.length)
    (same : pieceValue a = pieceValue b) : a = b := by
  rw [pieceValue, pieceValue, ← length] at same
  split at same
  · exact Word.eq_of_littleEndianValue_eq length same
  · apply List.reverse_injective
    exact Word.eq_of_littleEndianValue_eq (by simpa using length) same

theorem getElem?_piece (data : Bytes) (i : Nat) {j : Nat} (inside : j < 4) :
    (piece data i)[j]? = data[4 * i + j]? := by
  rw [piece, List.getElem?_take_of_lt inside, List.getElem?_drop]

/-- A byte string is determined by its pieces. -/
theorem eq_of_piece_eq {a b : Bytes} (same : ∀ i, piece a i = piece b i) : a = b := by
  apply List.ext_getElem?
  intro j
  have inside : j % 4 < 4 := Nat.mod_lt _ (by decide)
  have byte := congrArg (·[j % 4]?) (same (j / 4))
  simpa only [getElem?_piece _ _ inside, Nat.div_add_mod] using byte

theorem piece_congr {a b : Bytes} {i : Nat} (same : ∀ j, j / 4 = i → a[j]? = b[j]?) :
    piece a i = piece b i := by
  apply List.ext_getElem?
  intro j
  rcases Nat.lt_or_ge j 4 with inside | outside
  · rw [getElem?_piece a i inside, getElem?_piece b i inside]
    exact same _ (by omega)
  · rw [piece, piece, List.getElem?_take_eq_none outside, List.getElem?_take_eq_none outside]

/-- What the checksum says about a piece if all the others are known. -/
theorem eq_of_extend_eq {seed : UInt32} {a b : Bytes} {i : Nat} (length : a.length = b.length)
    (elsewhere : ∀ k, k ≠ i → piece a k = piece b k)
    (same : extend seed a = extend seed b) : a = b := by
  have sums := congrArg (residue ·.toNat) same
  have count : pieceCount a = pieceCount b := by rw [pieceCount, pieceCount, length]
  simp only [residue_extend, ← count] at sums
  have difference : ∑ k ∈ Finset.range (pieceCount a),
      (residue (pieceValue (piece a k)) - residue (pieceValue (piece b k))) *
        root ^ (32 * (pieceCount a - k)) = 0 := by
    simp only [sub_mul, Finset.sum_sub_distrib]
    exact sub_eq_zero.mpr (add_left_cancel sums)
  -- only the summand of the piece itself is left
  rw [Finset.sum_eq_single i] at difference
  · have unit : IsUnit (root ^ (32 * (pieceCount a - i))) := isUnit_root.pow _
    have residues := sub_eq_zero.mp (unit.mul_left_eq_zero.mp difference)
    have values :=
      (residue_inj_of_lt (pieceValue_piece_lt a i) (pieceValue_piece_lt b i)).mp residues
    have here : piece a i = piece b i :=
      eq_of_pieceValue_eq (by rw [length_piece, length_piece, length]) values
    apply eq_of_piece_eq
    intro k
    by_cases changed : k = i
    · rw [changed, here]
    · exact elsewhere k changed
  · intro k _ other
    rw [elsewhere k other, sub_self, zero_mul]
  · intro outside
    rw [Finset.mem_range, pieceCount] at outside
    have beyond : piece a i = piece b i := by
      rw [piece, piece, List.drop_of_length_le (by omega), List.drop_of_length_le (by omega)]
    rw [beyond, sub_self, zero_mul]

/-- The register before the data is moved up, and nothing of it is lost. -/
theorem extend_injective (data : Bytes) : Function.Injective fun seed => extend seed data := by
  intro seed other same
  have sums := congrArg (residue ·.toNat) same
  simp only [residue_extend] at sums
  exact residue_inj.mp ((isUnit_root.pow _).mul_left_injective (add_right_cancel sums))

theorem bijective_of_injective {f : UInt32 → UInt32} (injective : Function.Injective f) :
    Function.Bijective f :=
  haveI : Finite UInt32 := Finite.of_injective UInt32.toFin fun _ _ => UInt32.toFin_inj.mp
  Finite.injective_iff_bijective.mp injective

/-- A byte string with other bytes from an address on. -/
def patch (data : Bytes) (start : Nat) (bytes : Bytes) : Bytes :=
  data.take start ++ bytes ++ data.drop (start + bytes.length)

theorem length_patch {data : Bytes} {start : Nat} {bytes : Bytes}
    (fits : start + bytes.length ≤ data.length) :
    (patch data start bytes).length = data.length := by
  simp only [patch, List.length_append, List.length_take, List.length_drop]
  omega

/-- Bytes before and after those that were put there are as they were. -/
theorem getElem?_patch_of_outside {data : Bytes} {start : Nat} {bytes : Bytes} {j : Nat}
    (fits : start + bytes.length ≤ data.length) (outside : j < start ∨ start + bytes.length ≤ j) :
    (patch data start bytes)[j]? = data[j]? := by
  have front : (data.take start).length = start := by
    rw [List.length_take]
    omega
  rw [patch, List.append_assoc]
  rcases outside with before | after
  · rw [List.getElem?_append_left (by omega), List.getElem?_take_of_lt before]
  · rw [List.getElem?_append_right (by omega), List.getElem?_append_right (by omega), front,
      List.getElem?_drop]
    congr 1
    omega

theorem patch_injective {data : Bytes} {start : Nat} {a b : Bytes} (length : a.length = b.length)
    (same : patch data start a = patch data start b) : a = b := by
  rw [patch, patch, List.append_assoc, List.append_assoc] at same
  exact (List.append_inj (List.append_cancel_left same) length).1

/-- All contents of a piece give different checksums. -/
theorem injOn_extend_patch (seed : UInt32) {data : Bytes} {i size : Nat}
    (small : size ≤ 4) (fits : 4 * i + size ≤ data.length) :
    Set.InjOn (fun bytes => extend seed (patch data (4 * i) bytes))
      {bytes | bytes.length = size} := by
  intro a ha b hb same
  rw [Set.mem_ofPred_eq] at ha hb
  have length : (patch data (4 * i) a).length = (patch data (4 * i) b).length := by
    rw [length_patch (by omega), length_patch (by omega)]
  apply patch_injective (ha.trans hb.symm)
  refine eq_of_extend_eq (i := i) length ?_ same
  intro k other
  apply piece_congr
  intro j here
  by_cases beyond : data.length ≤ j
  · rw [List.getElem?_eq_none (by rwa [length_patch (by omega)]),
      List.getElem?_eq_none (by rwa [length_patch (by omega)])]
  · rw [getElem?_patch_of_outside (by omega) (by omega),
      getElem?_patch_of_outside (by omega) (by omega)]

/-- A checksum and everything but one piece of the data determine that piece, and a checksum
and the data determine the register it was continued from. -/
theorem change_in_one_piece_is_seen (seed : UInt32) (data : Bytes) :
    (∀ i, 4 * i + 4 ≤ data.length → Function.Bijective fun word : UInt32 =>
      extend seed (data.take (4 * i) ++ Word.littleEndian word ++ data.drop (4 * i + 4))) ∧
    (∀ i, 4 * i < data.length → data.length < 4 * i + 4 →
      Set.InjOn (fun tail => extend seed (data.take (4 * i) ++ tail))
        {tail | tail.length = data.length - 4 * i}) ∧
    (Function.Bijective fun start => extend start data) ∧
    ∀ (other : Bytes) (i : Nat), other.length = data.length →
      (∀ j, j / 4 ≠ i → other[j]? = data[j]?) → other ≠ data →
        extend seed other ≠ extend seed data := by
  refine ⟨?_, ?_, bijective_of_injective (extend_injective data), ?_⟩
  · intro i fits
    apply bijective_of_injective
    intro v w same
    apply Word.littleEndian_injective
    exact injOn_extend_patch seed (Nat.le_refl 4) fits (Word.length_littleEndian v)
      (Word.length_littleEndian w) same
  · intro i start short a ha b hb same
    have all : 4 * i + (data.length - 4 * i) = data.length := by omega
    have whole {tail : Bytes} (length : tail.length = data.length - 4 * i) :
        patch data (4 * i) tail = data.take (4 * i) ++ tail := by
      rw [patch, List.drop_of_length_le (by omega), List.append_nil]
    apply injOn_extend_patch seed (by omega) (Nat.le_of_eq all) ha hb
    simp only [whole ha, whole hb]
    exact same
  · intro other i length elsewhere changed same
    refine changed (eq_of_extend_eq (i := i) length ?_ same)
    intro k outside
    apply piece_congr
    rintro j rfl
    exact elsewhere j outside

/-- Nine bytes: the second word may be anything, and so may the last byte. -/
theorem nine_bytes_change_is_seen :
    (Function.Bijective fun word : UInt32 =>
      extend reset ([1, 2, 3, 4] ++ Word.littleEndian word ++ [9])) ∧
    Set.InjOn (fun tail => extend reset ([1, 2, 3, 4, 5, 6, 7, 8] ++ tail))
      {tail | tail.length = 1} ∧
    extend reset [1, 2, 3, 4, 0, 0, 0, 0, 9] ≠ extend reset [1, 2, 3, 4, 5, 6, 7, 8, 9] := by
  obtain ⟨words, tails, -, pairs⟩ :=
    change_in_one_piece_is_seen reset [1, 2, 3, 4, 5, 6, 7, 8, 9]
  refine ⟨words 1 (by decide), tails 2 (by decide) (by decide), pairs _ 1 rfl ?_ (by decide)⟩
  intro j outside
  match j with
  | 0 | 1 | 2 | 3 | 8 => rfl
  | 4 | 5 | 6 | 7 => exact absurd rfl outside
  | j + 9 => rfl

end Checksum

end ResourcePack
