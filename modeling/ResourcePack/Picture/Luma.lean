/-!
# Brightness

The brightness of a colour is `0.2126 r + 0.7152 g + 0.11 b`. The weights are binary
fractions of 53 significant bits, and so is the result of every product and sum on the
way, added from left to right; what lies between two such fractions goes to the nearer
one, and from the middle to the one whose last bit is zero. A colour whose exact
brightness is 128 may therefore come out just below it.

All numbers here are counted in units of `2⁻⁵⁶`, in which every one of them is whole.
-/

namespace ResourcePack

namespace Luma

/-- The number of bits kept after the first one that is set, that one included. -/
def precision : Nat := 53

/-- The nearest multiple of `unit`, and of two that are equally near the one with the
even quotient. -/
def roundTo (unit n : Nat) : Nat :=
  let quotient := n / unit
  let remainder := n % unit
  if unit < 2 * remainder ∨ (unit = 2 * remainder ∧ quotient % 2 = 1) then
    (quotient + 1) * unit
  else quotient * unit

def round (n : Nat) : Nat :=
  roundTo (1 <<< (n.log2 + 1 - precision)) n

def one : Nat := 1 <<< 56

/-- The fraction nearest to 0.2126. -/
def redWeight : Nat := 0x366CF41F212D78

/-- The fraction nearest to 0.7152. -/
def greenWeight : Nat := 0xB71758E2196528

/-- The fraction nearest to 0.11. -/
def blueWeight : Nat := 0x1C28F5C28F5C29

example : round redWeight = redWeight ∧ round greenWeight = greenWeight
    ∧ round blueWeight = blueWeight := by decide

example : (10000 * redWeight - 2126 * one : Int).natAbs ≤ 10000 * 1
    ∧ (10000 * greenWeight - 7152 * one : Int).natAbs ≤ 10000 * 4
    ∧ (100 * blueWeight - 11 * one : Int).natAbs ≤ 100 / 2 := by decide

/-- The brightness of a colour. -/
def ofRgb (r g b : UInt8) : Nat :=
  round (round (round (r.toNat * redWeight) + round (g.toNat * greenWeight)) +
    round (b.toNat * blueWeight))

/-- Whether a colour is nearer to white than to black, by the whole part of its
brightness. -/
def isBright (r g b : UInt8) : Bool :=
  128 ≤ ofRgb r g b / one

example : isBright 2 149 191 = true ∧ isBright 106 147 3 = false := by decide

end Luma

end ResourcePack
