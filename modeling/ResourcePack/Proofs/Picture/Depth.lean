import Mathlib
import ResourcePack.Picture.Depth

/-!
# What a depth has room for

A depth of `n` bits has `2 ^ n` values. Those are enough for the top bits of any level, and
the derived depth has enough for the colours it is derived from.
-/

namespace ResourcePack.Depth

theorem size_eq (depth : Depth) : depth.size = 2 ^ depth.bits := by
  cases depth <;> rfl

theorem one_shiftLeft_bits (depth : Depth) : 1 <<< depth.bits = depth.size := by
  cases depth <;> rfl

theorem size_pos (depth : Depth) : 0 < depth.size := by
  cases depth <;> decide

/-- Samples are never the words of two bytes that some files have. -/
theorem bits_ne_sixteen (depth : Depth) : depth.bits ≠ 16 := by
  cases depth <;> decide

theorem size_le_of_bits_le {d e : Depth} (h : d.bits ≤ e.bits) : d.size ≤ e.size := by
  rw [size_eq, size_eq]
  exact Nat.pow_le_pow_right (by decide) h

theorem toNat_scale (depth : Depth) (level : UInt8) :
    (depth.scale level).toNat = level.toNat / 2 ^ (8 - depth.bits) := by
  rw [scale, UInt8.toNat_shiftRight, Nat.shiftRight_eq_div_pow]
  cases depth <;> rfl

/-- What is left after shifting fits the depth. -/
theorem toNat_scale_lt (depth : Depth) (level : UInt8) :
    (depth.scale level).toNat < depth.size := by
  have bound := level.toNat_lt
  have split : 2 ^ 8 = depth.size * 2 ^ (8 - depth.bits) := by cases depth <;> rfl
  rw [toNat_scale, Nat.div_lt_iff_lt_mul (Nat.two_pow_pos _), ← split]
  exact bound

/-- The derived depth covers every number of colours up to 256. -/
theorem le_size_forColors {count : Nat} (h : count ≤ 256) : count ≤ (forColors count).size := by
  unfold forColors
  split
  · assumption
  split
  · assumption
  split
  · assumption
  · exact h

end ResourcePack.Depth
