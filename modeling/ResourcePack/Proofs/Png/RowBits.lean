import ResourcePack.Proofs.Png.Rows

/-!
# The bits of a row

Written out bit by bit, a packed row is the samples one after the other, each from its most
significant bit on, and then zeros up to the next whole byte.
-/

namespace ResourcePack.Png.Scanline

/-- The lowest bits of a number, the most significant one first. -/
def bitsOf (count value : Nat) : List Bool :=
  (List.range count).map fun n => value.testBit (count - 1 - n)

/-- The bits of bytes, from the most significant one of the first byte on. -/
def bits (bytes : Bytes) : List Bool :=
  bytes.flatMap fun byte => bitsOf 8 byte.toNat

@[simp] theorem length_bitsOf (count value : Nat) : (bitsOf count value).length = count := by
  simp [bitsOf]

theorem bitsOf_zero (count : Nat) : bitsOf count 0 = List.replicate count false := by
  simp [bitsOf, List.map_const']

/-- The upper bits come before the lower ones. -/
theorem bitsOf_add (count more value : Nat) :
    bitsOf (count + more) value =
      bitsOf count (value >>> more) ++ bitsOf more (value % 2 ^ more) := by
  rw [bitsOf, List.range_add, List.map_append, List.map_map]
  congr 1
  · apply List.map_congr_left
    intro n hn
    have before := List.mem_range.mp hn
    rw [Nat.testBit_shiftRight]
    congr 1
    omega
  · apply List.map_congr_left
    intro n hn
    have before := List.mem_range.mp hn
    have lower : more - 1 - n < more := by omega
    rw [Nat.testBit_mod_two_pow, decide_eq_true lower, Bool.true_and, Function.comp_apply]
    congr 1
    omega

/-- The digits of a number in a base that is a power of two are groups of its bits. -/
theorem bitsOf_mul (size count value : Nat) :
    bitsOf (count * size) value = (List.range count).flatMap fun n =>
      bitsOf size (value >>> (size * (count - 1 - n)) % 2 ^ size) := by
  induction count generalizing value with
  | zero => simp [bitsOf]
  | succ count ih =>
      rw [Nat.add_one_mul, bitsOf_add, ih, List.range_succ, List.flatMap_append,
        List.flatMap_singleton]
      congr 1
      · apply List.flatMap_congr
        intro n hn
        have before := List.mem_range.mp hn
        have place : count + 1 - 1 - n = (count - 1 - n) + 1 := by omega
        rw [← Nat.shiftRight_add, place, Nat.mul_add_one, Nat.add_comm size]
      · simp

/-- Samples cut a byte into groups of bits. -/
theorem bitsOf_byte (depth : Depth) (byte : UInt8) :
    bitsOf 8 byte.toNat = (unpackByte depth.bits byte).flatMap (bitsOf depth.bits) := by
  have whole : 8 = 8 / depth.bits * depth.bits := by cases depth <;> rfl
  rw [unpackByte, List.flatMap_map]
  conv_lhs => rw [whole, bitsOf_mul]
  apply List.flatMap_congr
  intro n hn
  have before := List.mem_range.mp hn
  have place : 8 - depth.bits * (n + 1) = depth.bits * (8 / depth.bits - 1 - n) := by
    cases depth <;> simp only [Depth.bits] at before ⊢ <;> omega
  rw [place, Nat.shiftLeft_eq, Nat.one_mul]

theorem bits_eq_unpack (depth : Depth) (row : Bytes) :
    bits row = (unpack depth.bits row).flatMap (bitsOf depth.bits) := by
  rw [bits, unpack, if_neg depth.bits_ne_sixteen, List.flatMap_assoc]
  apply List.flatMap_congr
  intro byte _
  exact bitsOf_byte depth byte

/-- A row is as long as its samples need, and has their bits and then zeros. -/
structure Spells (depth : Depth) (row : Bytes) (samples : List UInt8) : Prop where
  length : row.length = (samples.length * depth.bits + 7) / 8
  bits : bits row = samples.flatMap (fun sample => bitsOf depth.bits sample.toNat) ++
    List.replicate (8 * row.length - samples.length * depth.bits) false

theorem flatMap_bitsOf_zero (size more : Nat) :
    (List.replicate more 0).flatMap (bitsOf size) = List.replicate (more * size) false := by
  apply List.eq_replicate_iff.mpr
  constructor
  · simp [List.length_flatMap]
  · intro bit member
    obtain ⟨value, among, here⟩ := List.mem_flatMap.mp member
    rw [List.eq_of_mem_replicate among, bitsOf_zero] at here
    exact List.eq_of_mem_replicate here

/-- Columns that a picture does not have are zero. -/
theorem map_getD_range_add (samples : List UInt8) (more : Nat) :
    ((List.range (samples.length + more)).map fun n => (samples.getD n 0).toNat) =
      samples.map UInt8.toNat ++ List.replicate more 0 := by
  rw [List.range_add, List.map_append, map_getD_range, List.map_map]
  congr 1
  apply List.eq_replicate_iff.mpr
  constructor
  · simp
  · simp

/-- Packing spells samples that fit their bits. -/
theorem spells_pack (depth : Depth) {samples : List UInt8}
    (small : ∀ sample ∈ samples, sample.toNat < depth.size) :
    Spells depth (pack depth.bits ((samples.length * depth.bits + 7) / 8) samples) samples := by
  let count := (samples.length * depth.bits + 7) / 8
  obtain ⟨more, split⟩ : ∃ more, count * (8 / depth.bits) = samples.length + more :=
    Nat.exists_eq_add_of_le (columns_le depth samples.length)
  have padding : 8 * count - samples.length * depth.bits = more * depth.bits := by
    have whole : 8 / depth.bits * depth.bits = 8 := by cases depth <;> rfl
    have bits := congrArg (· * depth.bits) split
    simp only [Nat.mul_assoc, whole, Nat.add_mul] at bits
    omega
  refine ⟨length_pack .., ?_⟩
  rw [bits_eq_unpack depth, unpack_pack depth _ small, length_pack]
  show ((List.range (count * _)).map _).flatMap _ = _ ++ List.replicate (8 * count - _) false
  rw [split, map_getD_range_add, List.flatMap_append, flatMap_bitsOf_zero, padding,
    List.flatMap_map]

end ResourcePack.Png.Scanline
