import ResourcePack.Proofs.Pack.InPlace
import ResourcePack.Proofs.Png.Rows

/-!
# Rows packed in place

A machine makes all rows of a picture as bytes that are zero, cuts the pixels into rows and
ors each sample into the byte where it belongs. Here is the packing in this form. No
sample is moved out of its byte and none is written past its row, and since the bits of a
sample are zero before, the rows are the packed ones.
-/

namespace ResourcePack.Png.Scanline

open Pack (Fault address address_of_lt addressLimit zeros length_zeros zeros_add)

/-- The bits of a sample, moved up. -/
def shifted (bits up : Nat) (sample : UInt8) : UInt8 :=
  (sample &&& UInt8.ofNat ((1 <<< bits) - 1)) <<< UInt8.ofNat up

/-- Or a sample into the byte where its column is. -/
def mark (bits : Nat) (packed : Bytes) (column : Nat) (sample : UInt8) : Except Fault Bytes :=
  let place := column / (8 / bits)
  let used := bits * (column % (8 / bits) + 1)
  if 8 < used then .error .overflow
  else
    match packed[place]? with
    | none => .error .outOfRange
    | some byte => .ok (packed.set place (byte ||| shifted bits (8 - used) sample))

/-- Or samples into a row, from a column on. -/
def markAll (bits : Nat) (packed : Bytes) (column : Nat) : List UInt8 → Except Fault Bytes
  | [] => .ok packed
  | sample :: rest => do markAll bits (← mark bits packed column sample) (column + 1) rest

/-- Fill a row of a buffer. -/
def fillRow (bits size : Nat) (buffer : Bytes) (row : Nat) (samples : List UInt8) :
    Except Fault Bytes := do
  let start ← address (row * size)
  let stop ← address ((row + 1) * size)
  if buffer.length < stop then .error .outOfRange
  else
    let packed ← markAll bits ((buffer.drop start).take size) 0 samples
    return buffer.take start ++ packed ++ buffer.drop stop

/-- Fill rows of a buffer, from a row on. -/
def fillRows (bits size : Nat) (buffer : Bytes) (row : Nat) :
    List (List UInt8) → Except Fault Bytes
  | [] => .ok buffer
  | samples :: rest => do
    fillRows bits size (← fillRow bits size buffer row samples) (row + 1) rest

/-- Cut a list into pieces of `width`. The last one may be shorter. -/
def chunks (width : Nat) (pixels : List UInt8) : List (List UInt8) :=
  if width = 0 ∨ pixels = [] then []
  else pixels.take width :: chunks width (pixels.drop width)
termination_by pixels.length
decreasing_by
  rename_i any
  have := List.length_pos_iff.mpr fun none => any (.inr none)
  rw [List.length_drop]
  omega

/-- Pack the rows of a picture in place. Samples of eight bits are bytes already. -/
def packAt (bits width height : Nat) (pixels : List UInt8) : Except Fault Bytes :=
  if bits = 8 ∨ width = 0 then .ok pixels
  else do
    let size := (width + (8 / bits - 1)) / (8 / bits)
    let all ← address (size * height)
    fillRows bits size (zeros all) 0 (chunks width pixels)

section Digits

variable {base : Nat} {digit : Nat → Nat}

/-- Zeros at the end move the others up. -/
theorem ofDigits_of_zero {used count : Nat} (le : used ≤ count)
    (rest : ∀ n, used ≤ n → digit n = 0) :
    ofDigits base digit count = ofDigits base digit used * base ^ (count - used) := by
  induction count, le using Nat.le_induction with
  | base => simp
  | succ count le ih =>
      rw [ofDigits_succ, ih, rest count le, Nat.add_zero, Nat.succ_sub le, Nat.pow_succ,
        Nat.mul_assoc]

end Digits

/-- The number whose digits are samples. -/
def value (base : Nat) (samples : List UInt8) : Nat :=
  ofDigits base (fun n => (samples.getD n 0).toNat % base) samples.length

theorem value_concat (base : Nat) (samples : List UInt8) (sample : UInt8) :
    value base (samples ++ [sample]) = value base samples * base + sample.toNat % base := by
  have before : ∀ n < samples.length, ((samples ++ [sample]).getD n 0).toNat % base =
      (samples.getD n 0).toNat % base := by
    intro n hn
    rw [List.getD_append _ _ _ _ hn]
  rw [value, List.length_append, List.length_singleton, ofDigits_succ, ofDigits_congr before]
  simp [value]

/-- A byte that is not full has the number of its samples at the top. -/
theorem toNat_packByte_of_le (depth : Depth) {samples : List UInt8}
    (room : samples.length ≤ 8 / depth.bits) :
    (packByte depth.bits samples).toNat =
      value depth.size samples * depth.size ^ (8 / depth.bits - samples.length) := by
  rw [toNat_packByte, ofDigits_of_zero room]
  · rfl
  · intro n past
    rw [List.getD_eq_default _ _ past]
    exact Nat.zero_mod _

/-- A sample takes no more than its own bits, wherever it is moved. -/
theorem moved_lt (depth : Depth) (sample : UInt8) (after : Nat) :
    2 ^ (depth.bits * after) * (sample.toNat % depth.size) < 2 ^ (depth.bits * (after + 1)) := by
  rw [Nat.mul_add_one, Nat.pow_add, ← depth.size_eq]
  exact Nat.mul_lt_mul_of_pos_left (Nat.mod_lt _ depth.size_pos) (Nat.two_pow_pos _)

/-- A sample is moved to its place in a byte without loss. -/
theorem toNat_shifted (depth : Depth) (sample : UInt8) {after : Nat}
    (inside : depth.bits * (after + 1) ≤ 8) :
    (shifted depth.bits (depth.bits * after) sample).toNat =
      2 ^ (depth.bits * after) * (sample.toNat % depth.size) := by
  have mask : (UInt8.ofNat ((1 <<< depth.bits) - 1)).toNat = 2 ^ depth.bits - 1 := by
    cases depth <;> rfl
  have less : depth.bits * after < 8 := by
    have := depth.one_le_bits
    rw [Nat.mul_add_one] at inside
    omega
  have shift : (UInt8.ofNat (depth.bits * after)).toNat = depth.bits * after :=
    UInt8.toNat_ofNat_of_lt' (Nat.lt_trans less (by decide))
  have small : 2 ^ (depth.bits * after) * (sample.toNat % depth.size) < 2 ^ 8 :=
    calc 2 ^ (depth.bits * after) * (sample.toNat % depth.size)
        < 2 ^ (depth.bits * (after + 1)) := moved_lt depth sample after
      _ ≤ 2 ^ 8 := Nat.pow_le_pow_right (by decide) inside
  rw [shifted, UInt8.toNat_shiftLeft, UInt8.toNat_and, mask, Nat.and_two_pow_sub_one_eq_mod,
    shift, Nat.mod_eq_of_lt less, Nat.shiftLeft_eq, ← depth.size_eq, Nat.mul_comm,
    Nat.mod_eq_of_lt small]

/-- The bits of one more sample in a byte are zero before. -/
theorem packByte_concat (depth : Depth) {samples : List UInt8} (sample : UInt8)
    (room : samples.length < 8 / depth.bits) :
    packByte depth.bits (samples ++ [sample]) =
      packByte depth.bits samples |||
        shifted depth.bits (8 - depth.bits * (samples.length + 1)) sample := by
  obtain ⟨after, split⟩ : ∃ after, 8 / depth.bits = samples.length + 1 + after :=
    Nat.exists_eq_add_of_le room
  have whole : depth.bits * (samples.length + 1) + depth.bits * after = 8 := by
    rw [← Nat.mul_add, ← split]
    cases depth <;> rfl
  have place : 8 - depth.bits * (samples.length + 1) = depth.bits * after := by omega
  have inside : depth.bits * (after + 1) ≤ 8 := by
    rw [Nat.mul_add_one] at whole ⊢
    omega
  have before : (packByte depth.bits samples).toNat =
      2 ^ (depth.bits * (after + 1)) * value depth.size samples := by
    have rest : 8 / depth.bits - samples.length = after + 1 := by omega
    rw [toNat_packByte_of_le depth (Nat.le_of_lt room), rest, Nat.pow_mul, ← depth.size_eq,
      Nat.mul_comm]
  have now : (packByte depth.bits (samples ++ [sample])).toNat =
      2 ^ (depth.bits * (after + 1)) * value depth.size samples +
        2 ^ (depth.bits * after) * (sample.toNat % depth.size) := by
    have length : (samples ++ [sample]).length = samples.length + 1 := List.length_append
    have rest : 8 / depth.bits - (samples.length + 1) = after := by omega
    rw [toNat_packByte_of_le depth (by rwa [length]), length, rest, value_concat, Nat.pow_mul,
      Nat.pow_mul, ← depth.size_eq]
    ring
  apply UInt8.toNat_inj.mp
  rw [UInt8.toNat_or, place, toNat_shifted depth sample inside, before, now]
  exact Nat.two_pow_add_eq_or_of_lt (moved_lt depth sample after) _

theorem perByte_pos (depth : Depth) : 0 < 8 / depth.bits := by
  cases depth <;> decide

/-- A sample for a later byte leaves the first one alone. -/
theorem mark_cons (depth : Depth) (byte : UInt8) (packed : Bytes) (column : Nat)
    (sample : UInt8) :
    mark depth.bits (byte :: packed) (column + 8 / depth.bits) sample =
      (mark depth.bits packed column sample).map (byte :: ·) := by
  have positive := perByte_pos depth
  have later : (column + 8 / depth.bits) / (8 / depth.bits) = column / (8 / depth.bits) + 1 :=
    Nat.add_div_right column positive
  have used : (column + 8 / depth.bits) % (8 / depth.bits) = column % (8 / depth.bits) :=
    Nat.add_mod_right ..
  simp only [mark, later, used, List.getElem?_cons_succ]
  split
  · rfl
  · cases packed[column / (8 / depth.bits)]? <;> rfl

/-- A sample for the first byte has room in it. -/
theorem mark_first (depth : Depth) (byte : UInt8) (packed : Bytes) {column : Nat}
    (sample : UInt8) (inside : column < 8 / depth.bits) :
    mark depth.bits (byte :: packed) column sample =
      .ok ((byte ||| shifted depth.bits (8 - depth.bits * (column + 1)) sample) :: packed) := by
  have used : ¬ 8 < depth.bits * (column + 1) := by
    apply Nat.not_lt.mpr
    calc depth.bits * (column + 1) ≤ depth.bits * (8 / depth.bits) :=
          Nat.mul_le_mul_left _ inside
      _ ≤ 8 := Nat.mul_div_le ..
  simp only [mark, Nat.div_eq_of_lt inside, Nat.mod_eq_of_lt inside, if_neg used,
    List.getElem?_cons_zero, List.set_cons_zero]

/-- One more sample in a row. -/
theorem mark_pack (depth : Depth) {count : Nat} {samples : List UInt8} (sample : UInt8)
    (room : samples.length < count * (8 / depth.bits)) :
    mark depth.bits (pack depth.bits count samples) samples.length sample =
      .ok (pack depth.bits count (samples ++ [sample])) := by
  induction count generalizing samples with
  | zero => simp at room
  | succ count ih =>
      rw [pack, pack]
      by_cases first : samples.length < 8 / depth.bits
      · have none : samples.drop (8 / depth.bits) = [] :=
          List.drop_eq_nil_of_le (Nat.le_of_lt first)
        have none' : (samples ++ [sample]).drop (8 / depth.bits) = [] :=
          List.drop_eq_nil_of_le (by simpa using first)
        rw [mark_first depth _ _ _ first, ← packByte_concat depth sample first, none, none']
      · have full := Nat.le_of_not_lt first
        have column : samples.length = (samples.drop (8 / depth.bits)).length + 8 / depth.bits := by
          rw [List.length_drop, Nat.sub_add_cancel full]
        have same : packByte depth.bits (samples ++ [sample]) = packByte depth.bits samples := by
          apply UInt8.toNat_inj.mp
          rw [toNat_packByte, toNat_packByte]
          apply ofDigits_congr
          intro n hn
          rw [List.getD_append _ _ _ _ (Nat.lt_of_lt_of_le hn full)]
        rw [Nat.add_one_mul] at room
        have there : (samples.drop (8 / depth.bits)).length < count * (8 / depth.bits) := by omega
        have rest := ih there
        rw [column, mark_cons, rest, same, List.drop_append_of_le_length full]
        rfl

/-- All samples of a row. -/
theorem markAll_pack (depth : Depth) {count : Nat} {samples rest : List UInt8}
    (room : (samples ++ rest).length ≤ count * (8 / depth.bits)) :
    markAll depth.bits (pack depth.bits count samples) samples.length rest =
      .ok (pack depth.bits count (samples ++ rest)) := by
  induction rest generalizing samples with
  | nil => simp [markAll]
  | cons sample rest ih =>
      have assoc : samples ++ [sample] ++ rest = samples ++ sample :: rest := by simp
      have enough : (samples ++ [sample] ++ rest).length ≤ count * (8 / depth.bits) := by
        rwa [assoc]
      have others := ih enough
      rw [List.length_append, List.length_cons] at room
      rw [List.length_append, List.length_singleton, assoc] at others
      have room : samples.length < count * (8 / depth.bits) := by omega
      simp only [markAll, mark_pack depth sample room, bind, Except.bind]
      exact others

theorem pack_nil (depth : Depth) (count : Nat) : pack depth.bits count [] = zeros count := by
  induction count with
  | zero => rfl
  | succ count ih =>
      rw [pack, List.drop_nil, ih, Nat.add_comm, zeros_add]
      cases depth <;> rfl

/-- A row that is still zero is filled, and the bytes before and after it stay. -/
theorem fillRow_pack (depth : Depth) {size row : Nat} {done : Bytes} (after : Bytes)
    {samples : List UInt8} (here : done.length = row * size)
    (room : samples.length ≤ size * (8 / depth.bits)) (fits : (row + 1) * size < addressLimit) :
    fillRow depth.bits size (done ++ (zeros size ++ after)) row samples =
      .ok (done ++ pack depth.bits size samples ++ after) := by
  have next : (row + 1) * size = (done ++ zeros size).length := by
    rw [List.length_append, length_zeros, here, Nat.add_one_mul]
  have start : row * size < addressLimit := by
    rw [Nat.add_one_mul] at fits
    omega
  have enough : ¬ (done ++ (zeros size ++ after)).length < (row + 1) * size := by
    rw [next, ← List.append_assoc, List.length_append]
    exact Nat.not_lt.mpr (Nat.le_add_right _ _)
  have front : (done ++ (zeros size ++ after)).take (row * size) = done := List.take_left' here
  have hole : ((done ++ (zeros size ++ after)).drop (row * size)).take size = zeros size := by
    rw [← here, List.drop_left, List.take_left' (length_zeros size)]
  have back : (done ++ (zeros size ++ after)).drop ((row + 1) * size) = after := by
    rw [next, ← List.append_assoc, List.drop_left]
  have narrow : ([] ++ samples).length ≤ size * (8 / depth.bits) := room
  have packed := markAll_pack depth narrow
  rw [pack_nil, List.nil_append, List.length_nil] at packed
  simp only [fillRow, address_of_lt start, address_of_lt fits, if_neg enough, hole, packed, front,
    back, bind, Except.bind]
  rfl

/-- Rows are filled one after the other, and those that have not been filled are zero. -/
theorem fillRows_pack (depth : Depth) {size row : Nat} {done : Bytes} {rest : List (List UInt8)}
    (here : done.length = row * size)
    (room : ∀ samples ∈ rest, samples.length ≤ size * (8 / depth.bits))
    (fits : (row + rest.length) * size < addressLimit) :
    fillRows depth.bits size (done ++ zeros (rest.length * size)) row rest =
      .ok (done ++ (rest.map (pack depth.bits size)).flatten) := by
  induction rest generalizing row done with
  | nil => simp [fillRows, zeros]
  | cons samples rest ih =>
      have parts : zeros ((samples :: rest).length * size) =
          zeros size ++ zeros (rest.length * size) := by
        rw [List.length_cons, Nat.add_one_mul, Nat.add_comm, zeros_add]
      have later : (row + 1 + rest.length) * size < addressLimit := by
        rw [List.length_cons, ← Nat.add_assoc, Nat.add_right_comm] at fits
        exact fits
      have stop : (row + 1) * size < addressLimit := by
        rw [Nat.add_mul] at later
        omega
      have first := fillRow_pack depth (zeros (rest.length * size)) here
        (room samples List.mem_cons_self) stop
      have filled : (done ++ pack depth.bits size samples).length = (row + 1) * size := by
        rw [List.length_append, length_pack, here, Nat.add_one_mul]
      have others := ih filled
        (fun samples member => room samples (List.mem_cons_of_mem _ member)) later
      simp only [fillRows, parts, first, bind, Except.bind]
      rw [others, List.map_cons, List.flatten_cons, List.append_assoc]

/-- A first row and the others. -/
theorem chunks_succ {width height : Nat} {pixels : List UInt8} (positive : 0 < width)
    (all : pixels.length = width * (height + 1)) :
    chunks width pixels = pixels.take width :: chunks width (pixels.drop width) ∧
      (pixels.take width).length = width ∧ (pixels.drop width).length = width * height := by
  rw [Nat.mul_succ] at all
  have any : pixels ≠ [] := by
    rintro rfl
    rw [List.length_nil] at all
    omega
  refine ⟨?_, ?_, ?_⟩
  · rw [chunks, if_neg (by simp [any, Nat.ne_of_gt positive])]
  · rw [List.length_take]
    omega
  · rw [List.length_drop]
    omega

theorem chunks_zero {width : Nat} {pixels : List UInt8} (all : pixels.length = width * 0) :
    pixels = [] ∧ chunks width pixels = [] := by
  obtain rfl := List.eq_nil_of_length_eq_zero (all.trans (Nat.mul_zero _))
  exact ⟨rfl, by rw [chunks, if_pos (Or.inr rfl)]⟩

/-- Cutting gives as many pieces as there are rows, all of the same length. -/
theorem length_chunks {width height : Nat} {pixels : List UInt8} (positive : 0 < width)
    (all : pixels.length = width * height) :
    (chunks width pixels).length = height ∧
      ∀ samples ∈ chunks width pixels, samples.length = width := by
  induction height generalizing pixels with
  | zero => simp [(chunks_zero all).2]
  | succ height ih =>
      obtain ⟨cut, size, rest⟩ := chunks_succ positive all
      obtain ⟨count, sizes⟩ := ih rest
      rw [cut]
      refine ⟨by rw [List.length_cons, count], ?_⟩
      intro samples member
      rcases List.mem_cons.mp member with rfl | member
      · exact size
      · exact sizes samples member

theorem flatten_chunks {width : Nat} (positive : 0 < width) (pixels : List UInt8) :
    (chunks width pixels).flatten = pixels := by
  fun_induction chunks width pixels with
  | case1 pixels none =>
      rcases none with none | rfl
      · omega
      · rfl
  | case2 pixels _ ih => rw [List.flatten_cons, ih, List.take_append_drop]

theorem mem_of_mem_chunks {width : Nat} (positive : 0 < width) {pixels samples : List UInt8}
    (member : samples ∈ chunks width pixels) {sample : UInt8} (among : sample ∈ samples) :
    sample ∈ pixels := by
  rw [← flatten_chunks positive pixels]
  exact List.mem_flatten_of_mem member among

/-- The rows of a picture are its pieces, packed. -/
theorem packedRows_eq {width height : Nat} {pixels : List UInt8} (positive : 0 < width)
    (bits : Nat) (all : pixels.length = width * height) :
    Content.packedRows width bits height pixels =
      (chunks width pixels).map (pack bits ((width * bits + 7) / 8)) := by
  induction height generalizing pixels with
  | zero =>
      rw [(chunks_zero all).2]
      rfl
  | succ height ih =>
      obtain ⟨cut, -, rest⟩ := chunks_succ positive all
      rw [cut, List.map_cons, Content.packedRows, ih rest]

/-- A sample of eight bits is a byte. -/
theorem pack_eight (samples : List UInt8) : pack 8 samples.length samples = samples := by
  induction samples with
  | nil => rfl
  | cons sample samples ih =>
      have first : packByte 8 (sample :: samples) = sample := by
        simp [packByte, List.range_succ]
      rw [List.length_cons, pack, first]
      exact congrArg _ ih

/-- Counted in bytes of samples or in bits, a row has the same size. -/
theorem rowBytes_eq (depth : Depth) (width : Nat) :
    (width + (8 / depth.bits - 1)) / (8 / depth.bits) = (width * depth.bits + 7) / 8 := by
  cases depth <;> simp only [Depth.bits] <;> omega

theorem rowBytes_le (depth : Depth) (width : Nat) : (width * depth.bits + 7) / 8 ≤ width := by
  cases depth <;> simp only [Depth.bits] <;> omega

/-- Packing in place never goes wrong, and it gives the packed rows. -/
theorem packAt_eq (depth : Depth) {width height : Nat} {pixels : List UInt8}
    (positive : 0 < width) (wide : width < 2 ^ 32) (high : height < 2 ^ 32)
    (all : pixels.length = width * height) :
    packAt depth.bits width height pixels =
      .ok (Content.packedRows width depth.bits height pixels).flatten := by
  obtain ⟨count, sizes⟩ := length_chunks positive all
  rw [packedRows_eq positive depth.bits all]
  by_cases bytes : depth.bits = 8
  · have same : ∀ samples ∈ chunks width pixels,
        pack depth.bits ((width * depth.bits + 7) / 8) samples = samples := by
      intro samples member
      have size : (width * 8 + 7) / 8 = samples.length := by
        rw [sizes samples member]
        omega
      rw [bytes, size, pack_eight]
    rw [packAt, if_pos (Or.inl bytes), List.map_congr_left same, List.map_id',
      flatten_chunks positive pixels]
  · have fits : (width * depth.bits + 7) / 8 * height < addressLimit := by
      have limit : addressLimit = 2 ^ 32 * 2 ^ 32 := by decide
      rw [limit]
      exact Nat.mul_lt_mul'' (Nat.lt_of_le_of_lt (rowBytes_le depth width) wide) high
    have room : ∀ samples ∈ chunks width pixels,
        samples.length ≤ (width * depth.bits + 7) / 8 * (8 / depth.bits) := by
      intro samples member
      rw [sizes samples member]
      exact columns_le depth width
    have start : ([] : Bytes).length = 0 * ((width * depth.bits + 7) / 8) := (Nat.zero_mul _).symm
    have limit : (0 + (chunks width pixels).length) * ((width * depth.bits + 7) / 8) <
        addressLimit := by
      rwa [Nat.zero_add, count, Nat.mul_comm height]
    have filled := fillRows_pack depth start room limit
    have skip : ¬ (depth.bits = 8 ∨ width = 0) := by omega
    rw [count, Nat.mul_comm height, List.nil_append, List.nil_append] at filled
    simp only [packAt, if_neg skip, rowBytes_eq, address_of_lt fits, bind, Except.bind]
    exact filled

end ResourcePack.Png.Scanline
