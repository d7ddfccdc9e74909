import Mathlib.Data.List.Basic
import ResourcePack.Text.Digits

/-!
# Digits of numbers

The decimal digits of a number are read as this number, and nothing but digits is in them.
Its hexadecimal digits are read as the number in capitals and with zeros in front as well.
-/

namespace ResourcePack

namespace Text

theorem not_mem_toDigits {c : Char} (other : c.isDigit = false) (n : Nat) :
    c ∉ Nat.toDigits 10 n := by
  intro mem
  have digit := Nat.isDigit_of_mem_toDigits (by decide) (by decide) mem
  exact absurd digit (by simp [other])

theorem hexValue?_of_isDigit {c : Char} (digit : c.isDigit = true) :
    hexValue? c = some (c.toNat - '0'.toNat) := by
  have bounds : '0' ≤ c ∧ c ≤ '9' := by
    simpa [Char.isDigit, Char.le_def] using digit
  rw [hexValue?, if_pos bounds]

theorem hexValue?_lt {c : Char} {value : Nat} (read : hexValue? c = some value) : value < 16 := by
  have bound : ∀ {d : Char}, c ≤ d → c.toNat ≤ d.toNat := fun le => le
  rw [hexValue?] at read
  split at read
  · next range =>
      cases read
      have last : c.toNat ≤ 57 := bound range.2
      simp only [Char.reduceToNat]
      omega
  · split at read
    · next range =>
        cases read
        have last : c.toNat ≤ 102 := bound range.2
        simp only [Char.reduceToNat]
        omega
    · split at read
      · next range =>
          cases read
          have last : c.toNat ≤ 70 := bound range.2
          simp only [Char.reduceToNat]
          omega
      · cases read

/-- The decimal digits of a number are read as the number. -/
theorem number_toDigits (n : Nat) : number 10 (Nat.toDigits 10 n) = n := by
  have read : number 10 (Nat.toDigits 10 n) = Nat.ofDigitChars 10 (Nat.toDigits 10 n) 0 := by
    rw [number, Nat.ofDigitChars_eq_foldl]
    refine List.foldl_ext _ _ _ fun sofar c mem => ?_
    have digit := Nat.isDigit_of_mem_toDigits (by decide) (by decide) mem
    rw [hexValue?_of_isDigit digit, Option.getD_some, Nat.mul_comm]
  rw [read, Nat.ofDigitChars_ten_toDigits]

/-- The capital digits of a number are read as the number. -/
theorem number_toUpper_toDigits (n : Nat) :
    number 16 ((Nat.toDigits 16 n).map Char.toUpper) = n := by
  have value : ∀ d < 16, (hexValue? (Nat.digitChar d).toUpper).getD 0 = d := by decide
  induction n using Nat.strongRecOn with
  | ind n ih =>
      by_cases small : n < 16
      · simp [Nat.toDigits_of_lt_base small, number, value n small]
      · have last := value (n % 16) (Nat.mod_lt n (by decide))
        have front := ih (n / 16) (by omega)
        rw [Nat.toDigits_of_base_le (by decide) (Nat.le_of_not_lt small), List.map_append, number,
          List.foldl_append, ← number, front, List.map_singleton, List.foldl_cons, List.foldl_nil,
          last]
        omega

theorem exists_digitChar_of_mem_toDigits {n : Nat} {c : Char} (mem : c ∈ Nat.toDigits 16 n) :
    ∃ d < 16, c = Nat.digitChar d := by
  induction n using Nat.strongRecOn with
  | ind n ih =>
      by_cases small : n < 16
      · rw [Nat.toDigits_of_lt_base small, List.mem_singleton] at mem
        exact ⟨n, small, mem⟩
      · rw [Nat.toDigits_of_base_le (by decide) (Nat.le_of_not_lt small), List.mem_append,
          List.mem_singleton] at mem
        obtain front | last := mem
        · exact ih (n / 16) (by omega) front
        · exact ⟨n % 16, Nat.mod_lt n (by decide), last⟩

/-- Zeros in front do not count. -/
theorem number_append_zeros (count : Nat) (digits : List Char) :
    number 16 (List.replicate count '0' ++ digits) = number 16 digits := by
  have zeros : number 16 (List.replicate count '0') = 0 := by
    induction count with
    | zero => rfl
    | succ count ih => exact ih
  rw [number, List.foldl_append, ← number, zeros]
  rfl

/-- Only zero is written with a zero in front. -/
theorem eq_zero_of_head?_toDigits {n : Nat} (zero : (Nat.toDigits 10 n).head? = some '0') :
    n = 0 := by
  induction n using Nat.strongRecOn with
  | ind n ih =>
      by_cases small : n < 10
      · have only : ∀ m < 10, Nat.digitChar m = '0' → m = 0 := by decide
        rw [Nat.toDigits_of_lt_base small, List.head?_singleton, Option.some_inj] at zero
        exact only n small zero
      · rw [Nat.toDigits_of_base_le (by decide) (Nat.le_of_not_lt small),
          List.head?_append_of_ne_nil _ Nat.toDigits_ne_nil] at zero
        have front := ih (n / 10) (by omega) zero
        omega

end Text

end ResourcePack
