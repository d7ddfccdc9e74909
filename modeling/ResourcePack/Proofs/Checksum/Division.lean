import Mathlib.Algebra.Field.ZMod
import Mathlib.Data.Nat.Bitwise
import Mathlib.Data.Nat.Size
import Mathlib.RingTheory.AdjoinRoot
import ResourcePack.Proofs.WordValue

/-!
# The checksum as a remainder

Read the bits of a word as a polynomial over GF(2). Shifting the register multiplies it
by `X` and takes the generator away when `X^32` appears, so modulo the generator nothing
else happens: every word is multiplied by `X^32` for each word from there to the end, and
what is left in the register is the remainder of the whole message.
-/

namespace ResourcePack

open Polynomial

/-- The polynomial over GF(2) whose coefficients are the bits of a number. -/
noncomputable def bitPolynomial (n : Nat) : (ZMod 2)[X] :=
  ∑ i ∈ Finset.range n.size, if n.testBit i then X ^ i else 0

theorem coeff_bitPolynomial (n i : Nat) :
    (bitPolynomial n).coeff i = if n.testBit i then 1 else 0 := by
  have term : ∀ j, (if n.testBit j then (X : (ZMod 2)[X]) ^ j else 0).coeff i =
      if i = j then if n.testBit j then 1 else 0 else 0 := by
    intro j
    by_cases set : n.testBit j <;> simp [set, coeff_X_pow]
  rw [bitPolynomial, finsetSum_coeff]
  simp only [term, Finset.sum_ite_eq, Finset.mem_range]
  by_cases inside : i < n.size
  · rw [if_pos inside]
  · have clear : n.testBit i = false :=
      Nat.testBit_lt_two_pow (Nat.lt_of_lt_of_le n.lt_size_self
        (Nat.pow_le_pow_right Nat.two_pos (Nat.le_of_not_lt inside)))
    rw [if_neg inside, clear]
    simp

@[simp] theorem bitPolynomial_zero : bitPolynomial 0 = 0 := by
  simp [bitPolynomial]

theorem bitPolynomial_xor (m n : Nat) :
    bitPolynomial (m ^^^ n) = bitPolynomial m + bitPolynomial n := by
  ext i
  rw [coeff_add, coeff_bitPolynomial, coeff_bitPolynomial, coeff_bitPolynomial, Nat.testBit_xor]
  cases m.testBit i <;> cases n.testBit i <;> decide

theorem bitPolynomial_shiftLeft_one (n : Nat) : bitPolynomial (n <<< 1) = X * bitPolynomial n := by
  ext i
  cases i with
  | zero => simp [coeff_bitPolynomial]
  | succ i => simp [coeff_bitPolynomial, Nat.testBit_shiftLeft]

theorem bitPolynomial_two_pow (k : Nat) : bitPolynomial (2 ^ k) = X ^ k := by
  ext i
  rw [coeff_bitPolynomial, coeff_X_pow, Nat.testBit_two_pow]
  simp [eq_comm]

/-- The bits of a word are coefficients below `X^32`. -/
theorem degree_bitPolynomial_lt (word : UInt32) : (bitPolynomial word.toNat).degree < 32 := by
  apply (degree_lt_iff_coeff_zero _ 32).mpr
  intro i high
  have clear : word.toNat.testBit i = false :=
    Nat.testBit_lt_two_pow
      (Nat.lt_of_lt_of_le word.toNat_lt (Nat.pow_le_pow_right Nat.two_pos high))
  simp [coeff_bitPolynomial, clear]

namespace Checksum

/-- The polynomial that messages are divided by. -/
noncomputable def generator : (ZMod 2)[X] := X ^ 32 + bitPolynomial polynomial.toNat

theorem bitPolynomial_generator : bitPolynomial (2 ^ 32 ^^^ polynomial.toNat) = generator := by
  rw [bitPolynomial_xor, bitPolynomial_two_pow, generator]

theorem degree_generator : generator.degree = 32 := by
  have below : (bitPolynomial polynomial.toNat).degree < ((X : (ZMod 2)[X]) ^ 32).degree := by
    rw [degree_X_pow]
    exact degree_bitPolynomial_lt polynomial
  rw [generator, degree_add_eq_left_of_degree_lt below, degree_X_pow]
  rfl

theorem generator_ne_zero : generator ≠ 0 := by
  intro zero
  have degree := degree_generator
  rw [zero, degree_zero] at degree
  cases degree

/-- What is shifted out at the top of a word is taken away. -/
theorem toNat_shiftLeft_one (word : UInt32) :
    (word <<< 1).toNat =
      word.toNat <<< 1 ^^^ if word.toNat.testBit 31 then 2 ^ 32 else 0 := by
  have carried : ∀ i, (if word.toNat.testBit 31 then 2 ^ 32 else 0 : Nat).testBit i =
      (word.toNat.testBit 31 && decide (32 = i)) := by
    intro i
    cases word.toNat.testBit 31 with
    | false => simp
    | true => rw [if_pos rfl, Nat.testBit_two_pow, Bool.true_and]
  rw [UInt32.toNat_shiftLeft]
  apply Nat.eq_of_testBit_eq
  intro i
  change (word.toNat <<< 1 % 2 ^ 32).testBit i = _
  rw [Nat.testBit_mod_two_pow, Nat.testBit_xor, carried, Nat.testBit_shiftLeft]
  rcases Nat.lt_trichotomy i 32 with below | rfl | above
  · simp [below, Nat.ne_of_gt below]
  · simp
  · have clear : word.toNat.testBit (i - 1) = false :=
      Nat.testBit_lt_two_pow (Nat.lt_of_lt_of_le word.toNat_lt
        (Nat.pow_le_pow_right Nat.two_pos (by omega)))
    simp [clear, Nat.not_lt_of_gt above, Nat.ne_of_lt above]

theorem testBit_top (word : UInt32) :
    word &&& 0x80000000 = 0 ↔ word.toNat.testBit 31 = false := by
  have masked : (word &&& 0x80000000).toNat = (word.toNat.testBit 31).toNat * 2 ^ 31 := by
    rw [UInt32.toNat_and]
    exact Nat.and_two_pow word.toNat 31
  rw [← UInt32.toNat_inj, masked]
  cases word.toNat.testBit 31 <;> decide

/-- One shift, as numbers. -/
theorem toNat_shift (register : UInt32) :
    (shift register).toNat = register.toNat <<< 1 ^^^
      if register.toNat.testBit 31 then 2 ^ 32 ^^^ polynomial.toNat else 0 := by
  unfold shift
  cases top : register.toNat.testBit 31 with
  | false =>
      rw [if_pos ((testBit_top register).mpr top), toNat_shiftLeft_one, top]
      rfl
  | true =>
      have set : ¬ register &&& 0x80000000 = 0 := by
        rw [testBit_top, top]
        decide
      rw [if_neg set, UInt32.toNat_xor, toNat_shiftLeft_one, top, if_pos rfl, if_pos rfl,
        Nat.xor_assoc]

/-- The class of a number modulo the generator. -/
noncomputable def residue (n : Nat) : AdjoinRoot generator :=
  AdjoinRoot.mk generator (bitPolynomial n)

/-- The class of `X`. -/
noncomputable def root : AdjoinRoot generator := AdjoinRoot.root generator

theorem residue_xor (m n : Nat) : residue (m ^^^ n) = residue m + residue n := by
  rw [residue, bitPolynomial_xor, map_add]
  rfl

/-- A shift of the register is a multiplication by `X`. -/
theorem residue_shift (register : UInt32) :
    residue (shift register).toNat = root * residue register.toNat := by
  rw [residue, toNat_shift, bitPolynomial_xor, bitPolynomial_shiftLeft_one, map_add, map_mul,
    AdjoinRoot.mk_X]
  cases register.toNat.testBit 31 with
  | false =>
      rw [if_neg Bool.false_ne_true, bitPolynomial_zero, map_zero, add_zero]
      rfl
  | true =>
      rw [if_pos rfl, bitPolynomial_generator, AdjoinRoot.mk_self, add_zero]
      rfl

theorem residue_repeat_shift (count : Nat) (register : UInt32) :
    residue (Nat.repeat shift count register).toNat = root ^ count * residue register.toNat := by
  induction count with
  | zero => simp [Nat.repeat]
  | succ count ih =>
      rw [Nat.repeat, residue_shift, ih, pow_succ']
      ring

/-- A word is added and everything is moved up by one word. -/
theorem residue_feed (register word : UInt32) :
    residue (feed register word).toNat =
      root ^ 32 * (residue register.toNat + residue word.toNat) := by
  rw [feed, residue_repeat_shift, UInt32.toNat_xor, residue_xor]

/-- The number of pieces of four bytes, the last of which may be short. -/
def pieceCount (data : Bytes) : Nat := (data.length + 3) / 4

/-- The piece at a position. -/
def piece (data : Bytes) (i : Nat) : Bytes := (data.drop (4 * i)).take 4

/-- A full piece is a little-endian number, a short one a big-endian number. -/
def pieceValue (piece : Bytes) : Nat :=
  if piece.length = 4 then Word.littleEndianValue piece else Word.bigEndianValue piece

theorem pieceCount_cons (a b c d : UInt8) (rest : Bytes) :
    pieceCount (a :: b :: c :: d :: rest) = pieceCount rest + 1 := by
  simp only [pieceCount, List.length_cons]
  omega

theorem piece_zero (a b c d : UInt8) (rest : Bytes) :
    piece (a :: b :: c :: d :: rest) 0 = [a, b, c, d] := rfl

theorem piece_succ (a b c d : UInt8) (rest : Bytes) (i : Nat) :
    piece (a :: b :: c :: d :: rest) (i + 1) = piece rest i := rfl

theorem pieceValue_word (a b c d : UInt8) :
    pieceValue [a, b, c, d] = (Word.ofLittleEndian a b c d).toNat := by
  rw [Word.toNat_ofLittleEndian_eq_value]
  rfl

/-- A last piece that is not full is the only one. -/
theorem finish_eq_feed (seed : UInt32) {tail : Bytes} (some : tail ≠ []) (short : tail.length < 4) :
    pieceCount tail = 1 ∧ (tailWord tail).toNat = pieceValue (piece tail 0) ∧
      finish seed tail = feed seed (tailWord tail) := by
  have whole : piece tail 0 = tail := List.take_of_length_le (Nat.le_of_lt short)
  refine ⟨?_, ?_, ?_⟩
  · have positive := List.length_pos_iff.mpr some
    rw [pieceCount]
    omega
  · rw [whole, pieceValue, if_neg (Nat.ne_of_lt short), toNat_tailWord (Nat.le_of_lt short)]
  · rw [finish, if_neg (mt List.isEmpty_iff.mp some)]

theorem residue_finish (seed : UInt32) {tail : Bytes} (short : tail.length < 4) :
    residue (finish seed tail).toNat =
      residue seed.toNat * root ^ (32 * pieceCount tail) +
        ∑ i ∈ Finset.range (pieceCount tail),
          residue (pieceValue (piece tail i)) * root ^ (32 * (pieceCount tail - i)) := by
  by_cases none : tail = []
  · subst none
    simp [finish, pieceCount]
  · obtain ⟨count, loaded, fed⟩ := finish_eq_feed seed none short
    rw [fed, residue_feed, count, Finset.sum_range_one, loaded]
    ring

/-- The class of what is left in the register. -/
theorem residue_extend (seed : UInt32) : ∀ data : Bytes,
    residue (extend seed data).toNat =
      residue seed.toNat * root ^ (32 * pieceCount data) +
        ∑ i ∈ Finset.range (pieceCount data),
          residue (pieceValue (piece data i)) * root ^ (32 * (pieceCount data - i))
  | a :: b :: c :: d :: rest => by
      rw [extend_word, residue_extend _ rest, residue_feed, pieceCount_cons,
        Finset.sum_range_succ']
      simp only [piece_succ, piece_zero, pieceValue_word, Nat.add_sub_add_right, Nat.sub_zero]
      ring
  | [] => residue_finish seed (by simp)
  | [_] => residue_finish seed (by simp)
  | [_, _] => residue_finish seed (by simp)
  | [_, _, _] => residue_finish seed (by simp)

/-- The register after `data` is the remainder of the whole message: the register before
it, moved up by all pieces, and every piece moved up by those from there to the end. -/
theorem extend_eq_remainder (seed : UInt32) (data : Bytes) :
    bitPolynomial (extend seed data).toNat =
        (bitPolynomial seed.toNat * X ^ (32 * pieceCount data) +
          ∑ i ∈ Finset.range (pieceCount data),
            bitPolynomial (pieceValue (piece data i)) * X ^ (32 * (pieceCount data - i))) %
          (X ^ 32 + bitPolynomial polynomial.toNat) ∧
      (bitPolynomial (extend seed data).toNat).degree < 32 := by
  refine ⟨?_, degree_bitPolynomial_lt _⟩
  have reduced : bitPolynomial (extend seed data).toNat % generator =
      bitPolynomial (extend seed data).toNat := by
    rw [mod_eq_self_iff generator_ne_zero, degree_generator]
    exact degree_bitPolynomial_lt _
  have congruent := residue_extend seed data
  simp only [residue, root, ← AdjoinRoot.mk_X, ← map_pow, ← map_mul, ← map_sum, ← map_add,
    AdjoinRoot.mk_eq_mk] at congruent
  rw [← reduced]
  exact mod_eq_of_dvd_sub congruent

end Checksum

end ResourcePack
