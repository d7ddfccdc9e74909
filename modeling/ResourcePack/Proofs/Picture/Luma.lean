import Mathlib.Algebra.Order.Ring.Nat
import ResourcePack.Picture.Luma

/-!
# Brightness grows with the colour

What a product or a sum is rounded to is a binary fraction of the precision, and no other such
fraction is nearer. So rounding keeps the order: of two numbers the greater one cannot have
the smaller nearest fraction. Brightness is made of products, sums and roundings alone, and
with the whole part taken off the end it still keeps the order of every channel.
-/

namespace ResourcePack.Luma

/-- A number whose bits end within the precision, counted from the first one that is set. -/
def IsFraction (n : Nat) : Prop :=
  ∃ digits exponent, digits < 2 ^ precision ∧ n = digits * 2 ^ exponent

/-- How far a number is from another one. -/
def distance (n k : Nat) : Nat := ((n : Int) - k).natAbs

/-- A multiple of the unit is chosen on the side of the nearer one. -/
theorem roundTo_cases (unit n : Nat) :
    roundTo unit n = n / unit * unit ∧ 2 * (n % unit) ≤ unit ∨
      roundTo unit n = (n / unit + 1) * unit ∧ unit ≤ 2 * (n % unit) := by
  unfold roundTo
  dsimp only
  split
  · exact .inr ⟨rfl, by omega⟩
  · exact .inl ⟨rfl, by omega⟩

/-- No multiple of the unit is nearer. -/
theorem distance_roundTo_le {unit : Nat} (pos : 0 < unit) (n k : Nat) :
    distance n (roundTo unit n) ≤ distance n (k * unit) := by
  have whole := Nat.div_add_mod' n unit
  have rest := Nat.mod_lt n pos
  have below : k * unit ≤ n / unit * unit ∨ n / unit * unit + unit ≤ k * unit := by
    rcases Nat.lt_or_ge (n / unit) k with more | less
    · refine .inr ?_
      rw [← Nat.succ_mul]
      exact Nat.mul_le_mul_right unit more
    · exact .inl (Nat.mul_le_mul_right unit less)
  unfold distance
  rcases roundTo_cases unit n with ⟨down, near⟩ | ⟨up, near⟩
  · rw [down]
    omega
  · rw [up, Nat.succ_mul]
    omega

/-- The exponent of the unit that a number is rounded to. -/
def exponent (n : Nat) : Nat := n.log2 + 1 - precision

theorem round_eq (n : Nat) : round n = roundTo (2 ^ exponent n) n := by
  rw [round, Nat.one_shiftLeft, exponent]

theorem lt_two_pow (n : Nat) : n < 2 ^ (precision + exponent n) := by
  refine Nat.lt_of_lt_of_le Nat.lt_log2_self (Nat.pow_le_pow_right (by decide) ?_)
  rw [exponent]
  omega

/-- Rounding ends at a fraction, be it that the carry makes it longer. -/
theorem isFraction_round (n : Nat) : IsFraction (round n) := by
  have few : n / 2 ^ exponent n < 2 ^ precision := by
    rw [Nat.div_lt_iff_lt_mul (Nat.two_pow_pos _), ← Nat.pow_add]
    exact lt_two_pow n
  rw [round_eq]
  rcases roundTo_cases (2 ^ exponent n) n with ⟨down, -⟩ | ⟨up, -⟩
  · exact ⟨_, _, few, down⟩
  · rcases Nat.lt_or_ge (n / 2 ^ exponent n + 1) (2 ^ precision) with fits | carries
    · exact ⟨_, _, fits, up⟩
    · have full : n / 2 ^ exponent n + 1 = 2 ^ precision := Nat.le_antisymm few carries
      exact ⟨1, precision + exponent n, by decide, by rw [up, full, Nat.pow_add, Nat.one_mul]⟩

/-- No fraction is nearer than the one that a number is rounded to. -/
theorem distance_round_le (n : Nat) {k : Nat} (fraction : IsFraction k) :
    distance n (round n) ≤ distance n k := by
  have multiple := distance_roundTo_le (Nat.two_pow_pos (exponent n)) n
  rw [round_eq]
  obtain ⟨digits, places, few, rfl⟩ := fraction
  rcases Nat.lt_or_ge places (exponent n) with fine | coarse
  · -- A finer fraction has too few digits to reach the first bit of the number, which is a
    -- multiple of the unit and lies between the two.
    have positive : exponent n ≠ 0 := Nat.ne_zero_of_lt fine
    have first : 2 ^ n.log2 = 2 ^ (precision - 1) * 2 ^ exponent n := by
      rw [← Nat.pow_add]
      congr 1
      rw [exponent] at positive ⊢
      rw [precision] at positive ⊢
      omega
    have reach : 2 ^ n.log2 ≤ n := by
      apply Nat.log2_self_le
      rintro rfl
      exact positive rfl
    have short : digits * 2 ^ places < 2 ^ n.log2 := by
      calc digits * 2 ^ places < 2 ^ precision * 2 ^ places :=
            Nat.mul_lt_mul_of_pos_right few (Nat.two_pow_pos places)
        _ = 2 ^ (precision + places) := (Nat.pow_add 2 precision places).symm
        _ ≤ 2 ^ n.log2 := by
            apply Nat.pow_le_pow_right (by decide)
            rw [exponent] at fine
            omega
    have nearer := multiple (2 ^ (precision - 1))
    rw [← first] at nearer
    refine Nat.le_trans nearer ?_
    unfold distance
    omega
  · have same : digits * 2 ^ places = digits * 2 ^ (places - exponent n) * 2 ^ exponent n := by
      rw [Nat.mul_assoc, ← Nat.pow_add, Nat.sub_add_cancel coarse]
    rw [same]
    exact multiple _

theorem round_mono {m n : Nat} (le : m ≤ n) : round m ≤ round n := by
  apply Nat.le_of_not_lt
  intro crossed
  have nearM := distance_round_le m (isFraction_round n)
  have nearN := distance_round_le n (isFraction_round m)
  unfold distance at nearM nearN
  -- Both numbers would have to lie in the middle.
  obtain rfl : m = n := by omega
  exact Nat.lt_irrefl _ crossed

theorem ofRgb_mono {r g b r' g' b' : UInt8} (red : r ≤ r') (green : g ≤ g') (blue : b ≤ b') :
    ofRgb r g b ≤ ofRgb r' g' b' := by
  have product {v v' : UInt8} (le : v ≤ v') (weight : Nat) :
      round (v.toNat * weight) ≤ round (v'.toNat * weight) :=
    round_mono (Nat.mul_le_mul_right weight (UInt8.le_iff_toNat_le.mp le))
  unfold ofRgb
  apply round_mono
  apply Nat.add_le_add _ (product blue blueWeight)
  apply round_mono
  exact Nat.add_le_add (product red redWeight) (product green greenWeight)

theorem isBright_mono {r g b r' g' b' : UInt8} (red : r ≤ r') (green : g ≤ g') (blue : b ≤ b')
    (bright : isBright r g b = true) : isBright r' g' b' = true := by
  simp only [isBright, decide_eq_true_eq] at bright ⊢
  exact Nat.le_trans bright (Nat.div_le_div_right (ofRgb_mono red green blue))

end ResourcePack.Luma
