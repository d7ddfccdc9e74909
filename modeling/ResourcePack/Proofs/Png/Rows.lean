import Mathlib
import ResourcePack.Png.Decode
import ResourcePack.Png.Encode
import ResourcePack.Proofs.Picture.Depth

/-!
# Rows of packed samples

A row has as many samples as fit in its bytes, which may be more than the picture has
columns. A reader takes the columns and leaves the padding alone, so what it gets is what
was packed, at every depth and for every width.
-/

namespace ResourcePack.Png

namespace Scanline

/-- The number whose digits are given, the most significant one first. -/
def ofDigits (base : Nat) (digit : Nat → Nat) (count : Nat) : Nat :=
  (List.range count).foldl (fun value n => value * base + digit n) 0

section Digits

variable {base : Nat} {digit : Nat → Nat}

theorem ofDigits_succ (count : Nat) :
    ofDigits base digit (count + 1) = ofDigits base digit count * base + digit count := by
  simp [ofDigits, List.range_succ]

theorem ofDigits_lt (small : ∀ n, digit n < base) (count : Nat) :
    ofDigits base digit count < base ^ count := by
  induction count with
  | zero => exact Nat.one_pos
  | succ count ih =>
      have last := small count
      calc ofDigits base digit (count + 1)
          = ofDigits base digit count * base + digit count := ofDigits_succ count
        _ < (ofDigits base digit count + 1) * base := by rw [Nat.add_one_mul]; omega
        _ ≤ base ^ count * base := Nat.mul_le_mul_right base ih
        _ = base ^ (count + 1) := (Nat.pow_succ ..).symm

/-- Dividing by the weight of a digit brings it to the end. -/
theorem ofDigits_div_mod (small : ∀ n, digit n < base) {count n : Nat} (hn : n < count) :
    ofDigits base digit count / base ^ (count - 1 - n) % base = digit n := by
  induction count with
  | zero => exact absurd hn (Nat.not_lt_zero n)
  | succ count ih =>
      have last := small count
      have positive : 0 < base := by omega
      rw [ofDigits_succ]
      rcases Nat.lt_succ_iff_lt_or_eq.mp hn with before | rfl
      · have weight : count + 1 - 1 - n = (count - 1 - n) + 1 := by omega
        rw [weight, Nat.pow_succ, Nat.mul_comm (base ^ _), ← Nat.div_div_eq_div_mul,
          Nat.mul_comm _ base, Nat.mul_add_div positive, Nat.div_eq_of_lt last, Nat.add_zero]
        exact ih before
      · simp [Nat.mod_eq_of_lt last]

theorem ofDigits_congr {other : Nat → Nat} {count : Nat}
    (same : ∀ n < count, digit n = other n) :
    ofDigits base digit count = ofDigits base other count := by
  induction count with
  | zero => rfl
  | succ count ih =>
      have before : ∀ n < count, digit n = other n := by
        intro n hn
        exact same n (Nat.lt_succ_of_lt hn)
      rw [ofDigits_succ, ofDigits_succ, same count (Nat.lt_succ_self count), ih before]

end Digits

theorem getD_lt {samples : List UInt8} {bound : Nat}
    (small : ∀ sample ∈ samples, sample.toNat < bound) (positive : 0 < bound) (n : Nat) :
    (samples.getD n 0).toNat < bound := by
  by_cases hn : n < samples.length
  · rw [List.getD_eq_getElem _ _ hn]
    exact small _ (List.getElem_mem hn)
  · rw [List.getD_eq_default _ _ (Nat.le_of_not_lt hn)]
    exact positive

/-- A byte is the number whose digits are the lowest bits of the samples. -/
theorem toNat_packByte (depth : Depth) (samples : List UInt8) :
    (packByte depth.bits samples).toNat =
      ofDigits depth.size (fun n => (samples.getD n 0).toNat % depth.size) (8 / depth.bits) := by
  have fill : depth.size ^ (8 / depth.bits) = 256 := by cases depth <;> rfl
  have digit (n : Nat) : (samples.getD n 0).toNat % depth.size < depth.size :=
    Nat.mod_lt _ depth.size_pos
  have byte := ofDigits_lt digit (8 / depth.bits)
  rw [fill] at byte
  simp only [packByte, Nat.shiftLeft_eq _ depth.bits, Nat.one_mul, ← depth.size_eq]
  exact UInt8.toNat_ofNat_of_lt' byte

/-- The samples of a byte come out as they went in, with zeros for those that were missing. -/
theorem unpackByte_packByte (depth : Depth) {samples : List UInt8}
    (small : ∀ sample ∈ samples, sample.toNat < depth.size) :
    unpackByte depth.bits (packByte depth.bits samples) =
      (List.range (8 / depth.bits)).map fun n => (samples.getD n 0).toNat := by
  have sample := getD_lt small depth.size_pos
  have kept (n : Nat) : (samples.getD n 0).toNat % depth.size = (samples.getD n 0).toNat :=
    Nat.mod_eq_of_lt (sample n)
  have packed : (packByte depth.bits samples).toNat =
      ofDigits depth.size (fun n => (samples.getD n 0).toNat) (8 / depth.bits) := by
    simp only [toNat_packByte, kept]
  rw [unpackByte, packed]
  apply List.map_congr_left
  intro n hn
  have place := List.mem_range.mp hn
  have weight : 2 ^ (8 - depth.bits * (n + 1)) = depth.size ^ (8 / depth.bits - 1 - n) := by
    rw [depth.size_eq, ← Nat.pow_mul]
    congr 1
    cases depth <;> simp only [Depth.bits] at place ⊢ <;> omega
  rw [Nat.shiftRight_eq_div_pow, weight, depth.one_shiftLeft_bits]
  exact ofDigits_div_mod sample place

/-- So do those of a row. -/
theorem unpack_pack (depth : Depth) (count : Nat) {samples : List UInt8}
    (small : ∀ sample ∈ samples, sample.toNat < depth.size) :
    unpack depth.bits (pack depth.bits count samples) =
      (List.range (count * (8 / depth.bits))).map fun n => (samples.getD n 0).toNat := by
  simp only [unpack, if_neg depth.bits_ne_sixteen]
  induction count generalizing samples with
  | zero => simp [pack]
  | succ count ih =>
      have rest : ∀ sample ∈ samples.drop (8 / depth.bits), sample.toNat < depth.size := by
        intro sample hs
        exact small sample (List.mem_of_mem_drop hs)
      rw [pack, List.flatMap_cons, unpackByte_packByte depth small, ih rest, Nat.add_one_mul,
        Nat.add_comm, List.range_add, List.map_append, List.map_map]
      simp [Function.comp_def, List.getD_eq_getElem?_getD]

/-- The bytes of a row have room for all columns. -/
theorem columns_le (depth : Depth) (width : Nat) :
    width ≤ (width * depth.bits + 7) / 8 * (8 / depth.bits) := by
  cases depth <;> simp only [Depth.bits] <;> omega

theorem map_getD_range (samples : List UInt8) :
    ((List.range samples.length).map fun n => (samples.getD n 0).toNat) =
      samples.map UInt8.toNat := by
  apply List.ext_getElem
  · simp
  · intro n hn hn'
    rw [List.length_map, List.length_range] at hn
    simp [hn]

/-- Without the padding a row has just its samples. -/
theorem take_unpack_pack (depth : Depth) {samples : List UInt8}
    (small : ∀ sample ∈ samples, sample.toNat < depth.size) :
    (unpack depth.bits
        (pack depth.bits ((samples.length * depth.bits + 7) / 8) samples)).take samples.length =
      samples.map UInt8.toNat := by
  rw [unpack_pack depth _ small, ← List.map_take, List.take_range,
    Nat.min_eq_left (columns_le depth samples.length), map_getD_range]

theorem length_pack (bits count : Nat) (samples : List UInt8) :
    (pack bits count samples).length = count := by
  induction count generalizing samples with
  | zero => rfl
  | succ count ih => simp [pack, ih]

/-- Rows that were not filtered are found again, whatever stands above the first one and
whatever follows the last one. -/
theorem rows?_unfiltered (stride : Nat) {size : Nat} (above : Bytes) {rows : List Bytes}
    (sizes : ∀ row ∈ rows, row.length = size) (rest : Bytes) :
    rows? stride size above rows.length (unfiltered rows ++ rest) = some (rows, rest) := by
  induction rows generalizing above with
  | nil => rfl
  | cons row rows ih =>
      have here : row.length = size := sizes row List.mem_cons_self
      have others : ∀ row ∈ rows, row.length = size := by
        intro row hr
        exact sizes row (List.mem_cons_of_mem _ hr)
      have split : unfiltered (row :: rows) ++ rest = 0 :: (row ++ (unfiltered rows ++ rest)) := by
        simp [unfiltered]
      subst here
      rw [split, List.length_cons]
      simp [rows?, unfilter?, ih _ others]

theorem length_unfiltered {size : Nat} {rows : List Bytes}
    (sizes : ∀ row ∈ rows, row.length = size) :
    (unfiltered rows).length = rows.length * (1 + size) := by
  induction rows with
  | nil => simp [unfiltered]
  | cons row rows ih =>
      have here : row.length = size := sizes row List.mem_cons_self
      have others : (unfiltered rows).length = rows.length * (1 + size) := by
        apply ih
        intro row hr
        exact sizes row (List.mem_cons_of_mem _ hr)
      have split : unfiltered (row :: rows) = 0 :: (row ++ unfiltered rows) := by simp [unfiltered]
      rw [split, List.length_cons, List.length_append, others, here, List.length_cons,
        Nat.add_one_mul]
      omega

end Scanline

namespace Content

/-- A row of single samples: each column gets its own, and padding is not looked at. -/
theorem groups_one {width : Nat} {samples : List Nat} (enough : width ≤ samples.length) :
    groups 1 width samples = (samples.take width).map fun sample => [sample] := by
  induction width generalizing samples with
  | zero => rfl
  | succ width ih =>
      cases samples with
      | nil => simp at enough
      | cons sample samples =>
          rw [List.length_cons] at enough
          simp [groups, ih (Nat.le_of_succ_le_succ enough)]

variable {meaning : Meaning} {depth : Depth}

/-- The colours in a packed row are those of its samples. -/
theorem rowColors_pack (single : meaning.kind.channels = 1) (bits : meaning.bits = depth.bits)
    {samples : List UInt8} (small : ∀ sample ∈ samples, sample.toNat < depth.size) :
    rowColors meaning samples.length
        (Scanline.pack depth.bits ((samples.length * depth.bits + 7) / 8) samples) =
      samples.map fun sample => meaning.color [sample.toNat] := by
  have all : samples.length ≤ (Scanline.unpack depth.bits
      (Scanline.pack depth.bits ((samples.length * depth.bits + 7) / 8) samples)).length := by
    rw [Scanline.unpack_pack depth _ small, List.length_map, List.length_range]
    exact Scanline.columns_le depth samples.length
  rw [rowColors, single, bits, groups_one all, Scanline.take_unpack_pack depth small]
  simp

/-- The colours of all rows are those of the pixels, in order. -/
theorem flatMap_packedRows (single : meaning.kind.channels = 1)
    (bits : meaning.bits = depth.bits) {width height : Nat} {pixels : List UInt8}
    (all : pixels.length = width * height)
    (small : ∀ sample ∈ pixels, sample.toNat < depth.size) :
    (packedRows width depth.bits height pixels).flatMap (rowColors meaning width) =
      pixels.map fun sample => meaning.color [sample.toNat] := by
  induction height generalizing pixels with
  | zero =>
      rw [Nat.mul_zero] at all
      obtain rfl := List.eq_nil_of_length_eq_zero all
      rfl
  | succ height ih =>
      rw [Nat.mul_succ] at all
      have row : (pixels.take width).length = width := by
        rw [List.length_take]
        omega
      have rest : (pixels.drop width).length = width * height := by
        rw [List.length_drop]
        omega
      have here : ∀ sample ∈ pixels.take width, sample.toNat < depth.size := by
        intro sample hs
        exact small sample (List.mem_of_mem_take hs)
      have there : ∀ sample ∈ pixels.drop width, sample.toNat < depth.size := by
        intro sample hs
        exact small sample (List.mem_of_mem_drop hs)
      have first := rowColors_pack single bits here
      rw [row] at first
      rw [packedRows, List.flatMap_cons, first, ih rest there, ← List.map_append,
        List.take_append_drop]

theorem length_packedRows (width bits height : Nat) (pixels : List UInt8) :
    (packedRows width bits height pixels).length = height := by
  induction height generalizing pixels with
  | zero => rfl
  | succ height ih => simp [packedRows, ih]

theorem length_of_mem_packedRows {width bits height : Nat} {pixels : List UInt8} {row : Bytes}
    (member : row ∈ packedRows width bits height pixels) :
    row.length = (width * bits + 7) / 8 := by
  induction height generalizing pixels with
  | zero => cases member
  | succ height ih =>
      rcases List.mem_cons.mp member with rfl | member
      · exact Scanline.length_pack ..
      · exact ih member

end Content

end ResourcePack.Png
