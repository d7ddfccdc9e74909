import Mathlib.Algebra.BigOperators.Intervals
import ResourcePack.Proofs.Checksum.Order

/-!
# Changes of single bits

Every bit of the data stands for a power of `X`, and a change of some bits is not seen
exactly if the sum of their powers is zero. Different bits have different powers, and as
long as the exponents stay below the order of `X` no two of them are congruent, so that a
change of one or of two bits is always seen.

In a full word the least significant byte comes first, in a short last piece the most
significant one does.
-/

namespace ResourcePack.Checksum

/-- The bit at a position. A byte has eight of them, the least significant one first. -/
def bitAt (data : Bytes) (k : Nat) : Bool :=
  (data.getD (k / 8) 0).toNat.testBit (k % 8)

/-- The positions at which two byte strings of one length have different bits. -/
def changedBits (a b : Bytes) : Finset Nat :=
  (Finset.range (8 * a.length)).filter fun k => bitAt a k ≠ bitAt b k

/-- The number of bytes below the one at a position, when the last piece is the lowest. -/
def byteWeight (length j : Nat) : Nat :=
  if j < length / 4 * 4 then 4 * ((length + 3) / 4 - 1 - j / 4) + j % 4 else length - 1 - j

/-- The number of bits below the one at a position. -/
def bitWeight (length k : Nat) : Nat :=
  8 * byteWeight length (k / 8) + k % 8

theorem byteWeight_lt {length j : Nat} (inside : j < length) :
    byteWeight length j < 4 * ((length + 3) / 4) := by
  unfold byteWeight
  split <;> omega

theorem byteWeight_inj {length i j : Nat} (hi : i < length) (hj : j < length)
    (same : byteWeight length i = byteWeight length j) : i = j := by
  unfold byteWeight at same
  split at same <;> split at same <;> omega

theorem bitWeight_inj {length i j : Nat} (hi : i < 8 * length) (hj : j < 8 * length)
    (same : bitWeight length i = bitWeight length j) : i = j := by
  unfold bitWeight at same
  have bytes : i / 8 = j / 8 := by
    apply byteWeight_inj (show i / 8 < length by omega) (by omega)
    omega
  omega

/-- A number by its bits. -/
theorem residue_eq_sum {width n : Nat} (small : n < 2 ^ width) :
    residue n = ∑ k ∈ Finset.range width, if n.testBit k then root ^ k else 0 := by
  induction width generalizing n with
  | zero =>
      obtain rfl : n = 0 := by omega
      simp
  | succ width ih =>
      rw [residue_half, ih (n := n / 2) (by omega), Finset.sum_range_succ', Finset.mul_sum]
      simp [Nat.testBit_succ, pow_succ', Nat.testBit_zero]

/-- A number by its bytes, the least significant one first. -/
theorem residue_littleEndianValue (bytes : Bytes) :
    residue (Word.littleEndianValue bytes) =
      ∑ j ∈ Finset.range bytes.length, root ^ (8 * j) * residue (bytes.getD j 0).toNat := by
  induction bytes with
  | nil => simp
  | cons byte bytes ih =>
      have parts : residue (0x100 * Word.littleEndianValue bytes + byte.toNat) = _ :=
        residue_two_pow_mul_add 8 _ byte.toNat_lt
      rw [Word.littleEndianValue_cons, Nat.add_comm, parts, ih, List.length_cons,
        Finset.sum_range_succ', Finset.mul_sum]
      simp [Nat.mul_add, pow_add, mul_left_comm, mul_assoc]

theorem residue_bigEndianValue (bytes : Bytes) :
    residue (Word.bigEndianValue bytes) = ∑ j ∈ Finset.range bytes.length,
      root ^ (8 * (bytes.length - 1 - j)) * residue (bytes.getD j 0).toNat := by
  rw [Word.bigEndianValue, residue_littleEndianValue, List.length_reverse,
    ← Finset.sum_range_reflect]
  apply Finset.sum_congr rfl
  intro j inside
  rw [Finset.mem_range] at inside
  have mirrored : bytes.reverse[bytes.length - 1 - j]? = bytes[j]? := by
    rw [List.getElem?_reverse (by omega)]
    congr 1
    omega
  rw [List.getD_eq_getElem?_getD, mirrored, List.getD_eq_getElem?_getD]

/-- The bytes of a byte string, each moved up to its place. -/
noncomputable def bytesSum (data : Bytes) : AdjoinRoot generator :=
  ∑ j ∈ Finset.range data.length,
    root ^ (8 * byteWeight data.length j) * residue (data.getD j 0).toNat

/-- A full word in front is moved up by all pieces after it. -/
theorem bytesSum_append {word : Bytes} (four : word.length = 4) (rest : Bytes) :
    bytesSum (word ++ rest) =
      root ^ (32 * pieceCount rest) * residue (Word.littleEndianValue word) + bytesSum rest := by
  have low (j : Nat) (inside : j < 4) :
      byteWeight (4 + rest.length) j = 4 * pieceCount rest + j := by
    unfold byteWeight pieceCount
    rw [if_pos (by omega)]
    omega
  have high (j : Nat) : byteWeight (4 + rest.length) (4 + j) = byteWeight rest.length j := by
    unfold byteWeight
    split <;> split <;> omega
  rw [bytesSum, List.length_append, four, Finset.sum_range_add, residue_littleEndianValue, four,
    Finset.mul_sum]
  refine congrArg₂ (· + ·) (Finset.sum_congr rfl ?_) (Finset.sum_congr rfl ?_)
  · intro j inside
    rw [Finset.mem_range] at inside
    have exponent : 8 * byteWeight (4 + rest.length) j = 32 * pieceCount rest + 8 * j := by
      rw [low j inside]
      omega
    rw [exponent, pow_add, mul_assoc, List.getD_append _ _ _ _ (by omega)]
  · intro j _
    rw [high, List.getD_append_right _ _ _ _ (by omega), four, Nat.add_sub_cancel_left]

theorem bytesSum_of_short {tail : Bytes} (short : tail.length < 4) :
    bytesSum tail = residue (Word.bigEndianValue tail) := by
  rw [bytesSum, residue_bigEndianValue]
  apply Finset.sum_congr rfl
  intro j _
  rw [byteWeight, if_neg (by omega)]

theorem residue_finish_bytes (seed : UInt32) {tail : Bytes} (some : tail ≠ [])
    (short : tail.length < 4) : residue (finish seed tail).toNat =
      root ^ (32 * pieceCount tail) * residue seed.toNat + root ^ 32 * bytesSum tail := by
  obtain ⟨count, -, fed⟩ := finish_eq_feed seed some short
  rw [fed, residue_feed, toNat_tailWord (Nat.le_of_lt short), count, bytesSum_of_short short]
  ring

/-- What is left in the register, byte by byte. -/
theorem residue_extend_bytes (seed : UInt32) : ∀ data : Bytes,
    residue (extend seed data).toNat =
      root ^ (32 * pieceCount data) * residue seed.toNat + root ^ 32 * bytesSum data
  | a :: b :: c :: d :: rest => by
      have sum : bytesSum ([a, b, c, d] ++ rest) = _ := bytesSum_append rfl rest
      rw [← Word.toNat_ofLittleEndian_eq_value] at sum
      change bytesSum (a :: b :: c :: d :: rest) = _ at sum
      rw [extend_word, residue_extend_bytes _ rest, residue_feed, pieceCount_cons, sum]
      ring
  | [] => by simp [pieceCount, bytesSum]
  | [_] => residue_finish_bytes seed (by simp) (by simp)
  | [_, _] => residue_finish_bytes seed (by simp) (by simp)
  | [_, _, _] => residue_finish_bytes seed (by simp) (by simp)

/-- Eight bits to a byte. -/
theorem sum_range_eight_mul {M : Type} [AddCommMonoid M] (f : Nat → Nat → M) (n : Nat) :
    ∑ k ∈ Finset.range (8 * n), f (k / 8) (k % 8) =
      ∑ j ∈ Finset.range n, ∑ k ∈ Finset.range 8, f j k := by
  induction n with
  | zero => rfl
  | succ n ih =>
      have last : ∑ k ∈ Finset.range 8, f ((8 * n + k) / 8) ((8 * n + k) % 8) =
          ∑ k ∈ Finset.range 8, f n k := by
        apply Finset.sum_congr rfl
        intro k inside
        rw [Finset.mem_range] at inside
        rw [Nat.mul_add_div (by decide), Nat.mul_add_mod, Nat.div_eq_of_lt inside,
          Nat.mod_eq_of_lt inside, Nat.add_zero]
      rw [Nat.mul_succ, Finset.sum_range_add, last, ih, Finset.sum_range_succ _ n]

theorem bytesSum_eq (data : Bytes) :
    bytesSum data = ∑ k ∈ Finset.range (8 * data.length),
      if bitAt data k then root ^ bitWeight data.length k else 0 := by
  have bits := sum_range_eight_mul (fun j k => if (data.getD j 0).toNat.testBit k then
    root ^ (8 * byteWeight data.length j + k) else 0) data.length
  refine Eq.trans (Finset.sum_congr rfl ?_) bits.symm
  intro j _
  rw [residue_eq_sum (UInt8.toNat_lt _), Finset.mul_sum]
  apply Finset.sum_congr rfl
  intro k _
  rw [mul_ite, mul_zero, ← pow_add]

theorem add_self (t : AdjoinRoot generator) : t + t = 0 := by
  have two : (1 : AdjoinRoot generator) + 1 = 0 := by
    rw [← residue_one, ← residue_xor, Nat.xor_self, residue_zero]
  calc
    t + t = (1 + 1) * t := by rw [add_mul, one_mul]
    _ = 0 := by rw [two, zero_mul]

theorem add_eq_zero_iff {t u : AdjoinRoot generator} : t + u = 0 ↔ t = u := by
  constructor
  · intro zero
    rw [← add_zero t, ← add_self u, ← add_assoc, zero, zero_add]
  · rintro rfl
    exact add_self t

/-- Where the bits are the same, the sums cancel. -/
theorem bytesSum_add {a b : Bytes} (length : a.length = b.length) :
    bytesSum a + bytesSum b = ∑ k ∈ changedBits a b, root ^ bitWeight a.length k := by
  rw [bytesSum_eq, bytesSum_eq, ← length, ← Finset.sum_add_distrib, changedBits,
    Finset.sum_filter]
  apply Finset.sum_congr rfl
  intro k _
  cases bitAt a k <;> cases bitAt b k <;> simp [add_self]

/-- Which changes are not seen: those whose bits stand for powers of `X` that add up to
nothing. -/
theorem extend_eq_iff (seed : UInt32) {a b : Bytes} (length : a.length = b.length) :
    extend seed a = extend seed b ↔
      ∑ k ∈ changedBits a b, root ^ bitWeight a.length k = 0 := by
  have count : pieceCount a = pieceCount b := by rw [pieceCount, pieceCount, length]
  have unit : IsUnit (root ^ 32) := isUnit_root.pow 32
  rw [← bytesSum_add length, add_eq_zero_iff, ← residue_inj, residue_extend_bytes,
    residue_extend_bytes, count, add_right_inj, unit.mul_right_inj]

theorem bitWeight_lt {length k : Nat} (bound : length ≤ 2 ^ 29 - 4) (inside : k < 8 * length) :
    bitWeight length k < 2 ^ 32 - 1 := by
  have byte : byteWeight length (k / 8) < 4 * ((length + 3) / 4) := byteWeight_lt (by omega)
  unfold bitWeight
  omega

/-- As long as no two bits have congruent places, a change of one or of two bits, wherever
they are, changes the checksum. -/
theorem one_or_two_changed_bits_are_seen (seed : UInt32) (a b : Bytes)
    (length : a.length = b.length) (bound : a.length ≤ 2 ^ 29 - 4)
    (few : (changedBits a b).card = 1 ∨ (changedBits a b).card = 2) :
    extend seed a ≠ extend seed b := by
  have inside {k : Nat} (changed : k ∈ changedBits a b) : k < 8 * a.length :=
    Finset.mem_range.mp (Finset.mem_filter.mp changed).1
  rw [Ne, extend_eq_iff seed length]
  intro zero
  rcases few with one | two
  · obtain ⟨k, only⟩ := Finset.card_eq_one.mp one
    rw [only, Finset.sum_singleton] at zero
    exact (isUnit_root.pow _).ne_zero zero
  · obtain ⟨i, j, different, both⟩ := Finset.card_eq_two.mp two
    rw [both, Finset.sum_pair different] at zero
    have hi : i < 8 * a.length := inside (by simp [both])
    have hj : j < 8 * a.length := inside (by simp [both])
    have weights := root_pow_injOn (bitWeight_lt bound hi) (bitWeight_lt bound hj)
      (add_eq_zero_iff.mp zero)
    exact different (bitWeight_inj hi hj weights)

/-- One bit in the word and one in the tail. -/
theorem bits_in_word_and_tail_are_seen :
    changedBits [1, 2, 3, 4, 5, 6] [1, 2, 0x83, 4, 5, 7] = {23, 40} ∧
      ofBytes [1, 2, 3, 4, 5, 6] ≠ ofBytes [1, 2, 0x83, 4, 5, 7] := by
  have changed : changedBits [1, 2, 3, 4, 5, 6] [1, 2, 0x83, 4, 5, 7] = {23, 40} := by decide
  exact ⟨changed, one_or_two_changed_bits_are_seen reset _ _ rfl (by decide)
    (.inr (by rw [changed]; rfl))⟩

end ResourcePack.Checksum
