import Mathlib.GroupTheory.OrderOfElement
import Mathlib.Tactic.NormNum.Prime
import ResourcePack.Proofs.Checksum.Division

/-!
# The order of `X`

Modulo the generator `X` is a unit, because the generator has a constant term, and its
powers come back to one only after `2^32 - 1` steps, because the generator is primitive.
The second is a matter of computing five powers. `times` and `power` compute in words, by
the shifts of the register alone, what products and powers of `X` are.
-/

namespace ResourcePack

open Polynomial

theorem bitPolynomial_injective : Function.Injective bitPolynomial := by
  intro m n same
  apply Nat.eq_of_testBit_eq
  intro i
  have coefficients := congrArg (coeff · i) same
  simp only [coeff_bitPolynomial] at coefficients
  cases first : m.testBit i <;> cases second : n.testBit i <;> simp_all

/-- Low bits are added below the others. -/
theorem bitPolynomial_two_pow_mul_add (k n : Nat) {low : Nat} (small : low < 2 ^ k) :
    bitPolynomial (2 ^ k * n + low) = X ^ k * bitPolynomial n + bitPolynomial low := by
  ext i
  rw [coeff_add, coeff_X_pow_mul', coeff_bitPolynomial, coeff_bitPolynomial, coeff_bitPolynomial,
    Nat.testBit_two_pow_mul_add n small]
  rcases Nat.lt_or_ge i k with below | above
  · simp [below, Nat.not_le.mpr below]
  · have clear : low.testBit i = false :=
      Nat.testBit_lt_two_pow (Nat.lt_of_lt_of_le small (Nat.pow_le_pow_right Nat.two_pos above))
    simp [above, Nat.not_lt.mpr above, clear]

namespace Checksum

@[simp] theorem residue_zero : residue 0 = 0 := by
  rw [residue, bitPolynomial_zero, map_zero]

theorem residue_two_pow (k : Nat) : residue (2 ^ k) = root ^ k := by
  rw [residue, bitPolynomial_two_pow, map_pow, AdjoinRoot.mk_X]
  rfl

@[simp] theorem residue_one : residue 1 = 1 :=
  residue_two_pow 0

theorem residue_two_pow_mul_add (k n : Nat) {low : Nat} (small : low < 2 ^ k) :
    residue (2 ^ k * n + low) = root ^ k * residue n + residue low := by
  rw [residue, bitPolynomial_two_pow_mul_add k n small, map_add, map_mul, map_pow,
    AdjoinRoot.mk_X]
  rfl

/-- A number by its last binary digit. -/
theorem residue_half (n : Nat) :
    residue n = root * residue (n / 2) + if n % 2 = 1 then 1 else 0 := by
  have parts := residue_two_pow_mul_add 1 (n / 2) (Nat.mod_lt n Nat.two_pos)
  rw [pow_one, pow_one, Nat.div_add_mod] at parts
  rw [parts]
  rcases Nat.mod_two_eq_zero_or_one n with even | odd
  · simp [even]
  · simp [odd]

/-- Words are their own remainders, so different ones are not congruent. -/
theorem residue_inj {a b : UInt32} : residue a.toNat = residue b.toNat ↔ a = b := by
  constructor
  · intro same
    have multiple : generator ∣ bitPolynomial a.toNat - bitPolynomial b.toNat :=
      AdjoinRoot.mk_eq_mk.mp same
    have below : (bitPolynomial a.toNat - bitPolynomial b.toNat).degree < generator.degree := by
      rw [degree_generator]
      exact lt_of_le_of_lt (degree_sub_le _ _)
        (max_lt (degree_bitPolynomial_lt a) (degree_bitPolynomial_lt b))
    have zero := eq_zero_of_dvd_of_degree_lt multiple below
    exact UInt32.toNat_inj.mp (bitPolynomial_injective (sub_eq_zero.mp zero))
  · rintro rfl
    rfl

/-- The word that a shift turns into one. -/
def inverse : UInt32 := 0x82608EDB

/-- What is shifted in at the bottom is never lost. -/
theorem isUnit_root : IsUnit root := by
  have one : root * residue inverse.toNat = 1 := by
    rw [← residue_shift]
    exact residue_one
  exact IsUnit.of_mul_eq_one _ one

instance : Nontrivial (AdjoinRoot generator) := by
  refine AdjoinRoot.nontrivial generator ?_
  rw [degree_generator]
  decide

/-- The product of a word and a number of at most `width` bits: double and add. -/
def times (word : UInt32) : (width n : Nat) → UInt32
  | 0, _ => 0
  | width + 1, n => times (shift word) width (n / 2) ^^^ if n % 2 = 1 then word else 0

theorem residue_times (word : UInt32) {width n : Nat} (small : n < 2 ^ width) :
    residue (times word width n).toNat = residue word.toNat * residue n := by
  induction width generalizing word n with
  | zero =>
      obtain rfl : n = 0 := by omega
      simp [times]
  | succ width ih =>
      have half : n / 2 < 2 ^ width := by omega
      rw [times, UInt32.toNat_xor, residue_xor, ih _ half, residue_shift, residue_half n]
      rcases Nat.mod_two_eq_zero_or_one n with even | odd
      · simp [even]
        ring
      · simp [odd]
        ring

/-- The power of `X` with an exponent of at most `width` bits: square and shift. -/
def power : (width n : Nat) → UInt32
  | 0, _ => 1
  | width + 1, n =>
    let half := power width (n / 2)
    let square := times half 32 half.toNat
    if n % 2 = 1 then shift square else square

theorem residue_power {width n : Nat} (small : n < 2 ^ width) :
    residue (power width n).toNat = root ^ n := by
  induction width generalizing n with
  | zero =>
      obtain rfl : n = 0 := by omega
      exact residue_one
  | succ width ih =>
      have half := ih (n := n / 2) (by omega)
      have square : residue (times (power width (n / 2)) 32 (power width (n / 2)).toNat).toNat =
          root ^ (n / 2 + n / 2) := by
        rw [residue_times _ (UInt32.toNat_lt _), half, pow_add]
      rw [power]
      rcases Nat.mod_two_eq_zero_or_one n with even | odd
      · rw [if_neg (by omega), square]
        congr 1
        omega
      · rw [if_pos odd, residue_shift, square, ← pow_succ']
        congr 1
        omega

/-- The prime factors of `2^32 - 1`, which are Fermat's. -/
def orderPrimes : List Nat := [3, 5, 17, 257, 65537]

theorem power_ne_one : ∀ p ∈ orderPrimes, power 32 ((2 ^ 32 - 1) / p) ≠ 1 := by
  decide +kernel

/-- The generator is primitive. -/
theorem orderOf_root : orderOf root = 2 ^ 32 - 1 := by
  have power_eq_one {n : Nat} (small : n < 2 ^ 32) : root ^ n = 1 ↔ power 32 n = 1 := by
    rw [← residue_power small, ← residue_one]
    exact residue_inj (b := 1)
  apply orderOf_eq_of_pow_and_pow_div_prime
  · decide
  · rw [power_eq_one (by decide)]
    decide +kernel
  · intro p prime divides
    have factors : (2 ^ 32 - 1 : Nat) = orderPrimes.prod := by decide
    rw [factors] at divides
    obtain ⟨q, listed, divides⟩ := prime.prime.dvd_prod_iff.mp divides
    have primes : ∀ q ∈ orderPrimes, q.Prime := by
      simp only [orderPrimes, List.forall_mem_cons]
      norm_num
    obtain rfl := (Nat.prime_dvd_prime_iff_eq prime (primes q listed)).mp divides
    rw [Ne, power_eq_one]
    · exact power_ne_one p listed
    · exact Nat.lt_of_le_of_lt (Nat.div_le_self ..) (by decide)

/-- Two powers of `X` below the order are different. -/
theorem root_pow_injOn {m n : Nat} (hm : m < 2 ^ 32 - 1) (hn : n < 2 ^ 32 - 1)
    (same : root ^ m = root ^ n) : m = n := by
  rw [← orderOf_root] at hm hn
  exact pow_injOn_Iio_orderOf hm hn same

end Checksum

end ResourcePack
