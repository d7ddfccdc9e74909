import ResourcePack.Pack.Archive
import ResourcePack.Proofs.Pack.Placement

/-!
# Packs read back as they were made

The reader shares no code with the assembler beyond the layout: it counts slots, decodes
signed words and searches the table, where the assembler places records at running
offsets. `Archive.Holds` is what the two have to agree on. It follows from the layout of
the file alone, and every answer of the reader follows from it.
-/

namespace ResourcePack.Pack

/-- Records read back in order, whatever comes after them. -/
theorem takeRecords_flatMap (records : List Record) (rest : Bytes) (slot : Nat) :
    takeRecords (records.flatMap Record.toBytes ++ rest) slot records.length = .ok records := by
  induction records generalizing slot with
  | nil => rfl
  | cons record records ih =>
      simp only [List.flatMap_cons, List.append_assoc, List.length_cons, takeRecords,
        Record.take?_append, ih]
      rfl

/-- One resource in the concatenated data, between those before and those after it. -/
theorem flatten_eq_around (resources : List Bytes) {i : Nat} (hi : i < resources.length) :
    resources.flatten =
      (resources.take i).flatten ++ (resources[i] ++ (resources.drop (i + 1)).flatten) := by
  rw [← List.flatten_cons, ← List.drop_eq_getElem_cons hi, ← List.flatten_append,
    List.take_append_drop]

theorem take_drop_flatten (resources : List Bytes) {i : Nat} (hi : i < resources.length) :
    (resources.flatten.drop (resources.take i).flatten.length).take resources[i].length =
      resources[i] := by
  rw [flatten_eq_around resources hi, List.drop_left, List.take_left]

/-- A resource ends where all data ends, or before. -/
theorem length_take_flatten_add_le (resources : List Bytes) {i : Nat} (hi : i < resources.length) :
    (resources.take i).flatten.length + resources[i].length ≤ resources.flatten.length := by
  have whole := congrArg List.length (flatten_eq_around resources hi)
  rw [List.length_append, List.length_append] at whole
  omega

/-- The record in a slot, with its words read as numbers. -/
theorem record_laidOut {resources : List Bytes} (room : resources.length ≤ capacity)
    (fits : resources.flatten.length ≤ offsetLimit) {i : Nat} (hi : i < resources.length) :
    ∃ record, (laidOut 0 0 resources)[i]? = some record ∧ record.index.toInt = i + 1 ∧
      record.offset.toInt = (resources.take i).flatten.length ∧
      record.size.toInt = resources[i].length ∧
      record.checksum = Checksum.ofBytes resources[i] := by
  have hrange := length_take_flatten_add_le resources hi
  rw [capacity_eq] at room
  unfold offsetLimit at fits
  have slot := getElem?_laidOut 0 0 resources hi
  rw [Nat.zero_add, Nat.zero_add] at slot
  refine ⟨_, slot, ?_, ?_, ?_, rfl⟩
  · exact Int32.toInt_ofNat_of_lt (by omega)
  · exact Int32.toInt_ofNat_of_lt (by omega)
  · exact Int32.toInt_ofNat_of_lt (by omega)

namespace Image

theorem length_tableBytes {image : Image} (room : image.records.length ≤ capacity) :
    image.tableBytes.length = capacity * recordSize := by
  have records : (image.records.flatMap Record.toBytes).length =
      image.records.length * recordSize := by
    simp [List.length_flatMap, List.map_const']
  rw [tableBytes, List.length_append, records, List.length_replicate, ← Nat.add_mul,
    Nat.add_sub_of_le room]

theorem drop_tableOffset (image : Image) :
    image.toBytes.drop tableOffset = image.tableBytes ++ image.data := rfl

/-- The unused slots keep the data at its fixed offset, for every number of records that
fit the table. -/
theorem drop_dataOffset {image : Image} (room : image.records.length ≤ capacity) :
    image.toBytes.drop dataOffset = image.data := by
  rw [← tableOffset_add_capacity, ← List.drop_drop, drop_tableOffset, ← length_tableBytes room,
    List.drop_left]

theorem length_toBytes {image : Image} (room : image.records.length ≤ capacity) :
    image.toBytes.length = dataOffset + image.data.length := by
  have before : (image.header.toBytes ++ [0, 0, 0, 0]).length = tableOffset := rfl
  rw [toBytes, List.length_append, List.length_append, before, length_tableBytes room,
    tableOffset_add_capacity]

/-- The file of an image opens, and the table that is read is the one that was written. -/
theorem ofBytes_toBytes (path : Path) {image : Image} (room : image.records.length ≤ capacity) :
    Archive.ofBytes path image.toBytes =
      .ok { path, header := image.header, records := image.records, bytes := image.toBytes } := by
  have header : Header.ofBytes? image.toBytes = some image.header := by
    rw [toBytes, List.append_assoc, List.append_assoc, Header.ofBytes?_append]
  have count : image.header.count.toNat = image.records.length := by
    rw [capacity_eq] at room
    exact UInt32.toNat_ofNat_of_lt' (Nat.lt_of_le_of_lt room (by decide))
  have records : takeRecords (image.toBytes.drop tableOffset) 0 image.records.length =
      .ok image.records := by
    rw [drop_tableOffset, tableBytes, List.append_assoc, takeRecords_flatMap]
  simp only [Archive.ofBytes, header, count, records]

end Image

namespace Archive

/-- An open pack with exactly these resources, in order and without gaps. -/
structure Holds (archive : Archive) (resources : List Bytes) : Prop where
  room : resources.length ≤ capacity
  fits : resources.flatten.length ≤ offsetLimit
  count : archive.header.count.toNat = resources.length
  checksum : archive.header.checksum = Checksum.ofBytes resources.flatten
  records : archive.records = laidOut 0 0 resources
  length : archive.bytes.length = dataOffset + resources.flatten.length
  data : archive.data = resources.flatten

/-- Assembling and opening again is independent of the path, which serves messages only. -/
theorem ofBytes_assemble (path : Path) {resources : List Bytes} {image : Image}
    (assembled : assemble resources = .ok image) :
    ∃ archive, ofBytes path image.toBytes = .ok archive ∧ archive.path = path ∧
      archive.records = image.records ∧ archive.Holds resources := by
  obtain ⟨room, fits, rfl⟩ := assemble_eq_ok_iff.mp assembled
  have table : (laidOut 0 0 resources).length ≤ capacity := by rwa [length_laidOut]
  refine ⟨_, Image.ofBytes_toBytes path table, rfl, rfl, room, fits, ?_, rfl, rfl,
    Image.length_toBytes table, Image.drop_dataOffset table⟩
  have small : resources.length < UInt32.size := by
    rw [capacity_eq] at room
    exact Nat.lt_of_le_of_lt room (by decide)
  simpa [Image.header] using UInt32.toNat_ofNat_of_lt' small

namespace Holds

variable {archive : Archive} {resources : List Bytes}

theorem record (h : archive.Holds resources) {i : Nat} (hi : i < resources.length) :
    ∃ record, archive.records[i]? = some record ∧ record.index.toInt = i + 1 ∧
      record.offset.toInt = (resources.take i).flatten.length ∧
      record.size.toInt = resources[i].length ∧
      record.checksum = Checksum.ofBytes resources[i] := by
  rw [h.records]
  exact record_laidOut h.room h.fits hi

/-- Slots and indices correspond, so the first record that stores an index is the one in
the slot before it. -/
theorem find (h : archive.Holds resources) {i : Nat} (hi : i < resources.length) {index : Int32}
    (hindex : index.toInt = i + 1) :
    ∃ record, archive.find index = .ok record ∧ archive.records[i]? = some record := by
  obtain ⟨record, slot, stored, _⟩ := h.record hi
  refine ⟨record, ?_, slot⟩
  have first : archive.records.find? (·.index = index) = some record := by
    obtain ⟨hlt, hget⟩ := List.getElem?_eq_some_iff.mp slot
    refine List.find?_eq_some_iff_getElem.mpr ⟨?_, i, hlt, hget, ?_⟩
    · simpa using Int32.toInt_inj.mp (stored.trans hindex.symm)
    · intro j hj
      obtain ⟨other, there, earlier, _⟩ := h.record (Nat.lt_trans hj hi)
      rw [(List.getElem?_eq_some_iff.mp there).2]
      simp only [Bool.not_eq_eq_eq_not, Bool.not_true, decide_eq_false_iff_not]
      intro same
      rw [same, hindex] at earlier
      omega
  simp only [Archive.find, first]

/-- What is stored under an index from 1 on, an empty resource included. -/
theorem extract (h : archive.Holds resources) {i : Nat} (hi : i < resources.length)
    {index : Int32} (hindex : index.toInt = i + 1) :
    archive.extract index = .ok resources[i] := by
  obtain ⟨record, found, slot⟩ := h.find hi hindex
  obtain ⟨_, there, _, offset, size, _⟩ := h.record hi
  cases slot.symm.trans there
  have hrange := length_take_flatten_add_le resources hi
  have start : record.offset.toNatClampNeg = (resources.take i).flatten.length := by
    rw [← Int32.toNat_toInt, offset, Int.toNat_natCast]
  have extent : record.size.toNatClampNeg = resources[i].length := by
    rw [← Int32.toNat_toInt, size, Int.toNat_natCast]
  have positive : ¬ (record.offset < 0 ∨ record.size < 0) := by
    rw [Int32.lt_iff_toInt_lt, Int32.lt_iff_toInt_lt, offset, size, Int32.toInt_zero]
    omega
  have inside : ¬ archive.bytes.length <
      dataOffset + (resources.take i).flatten.length + resources[i].length := by
    rw [h.length]
    omega
  have slice : archive.slice? record = some resources[i] := by
    simp only [slice?, if_neg positive, start, extent, if_neg inside]
    rw [← List.drop_drop]
    change some ((archive.data.drop _).take _) = _
    rw [h.data, take_drop_flatten resources hi]
  simp only [Archive.extract, found, bind, Except.bind, slice]

/-- No other index is stored, negative ones and 0 included. -/
theorem extract_notFound (h : archive.Holds resources) {index : Int32}
    (outside : ¬ (1 ≤ index.toInt ∧ index.toInt ≤ resources.length)) :
    archive.extract index = .error (.notFound archive.path index) := by
  have none : archive.records.find? (·.index = index) = none := by
    rw [List.find?_eq_none]
    intro record member
    obtain ⟨i, hi, rfl⟩ := List.mem_iff_getElem.mp member
    have hslot : i < resources.length := by simpa [h.records] using hi
    obtain ⟨_, there, stored, _⟩ := h.record hslot
    rw [(List.getElem?_eq_some_iff.mp there).2]
    simp only [decide_eq_true_eq]
    intro same
    rw [same] at stored
    omega
  simp only [Archive.extract, Archive.find, none, bind, Except.bind]

end Holds

/-- The round trip of the container, for every list that can be assembled. Indices are
those the table can hold at all, so everything outside `1 ≤ index ≤ resources.length` is
reported missing, with the path the archive was opened under. -/
theorem assembled_reads_back (path : Path) (resources : List Bytes) (image : Image)
    (assembled : assemble resources = .ok image) :
    ∃ archive, ofBytes path image.toBytes = .ok archive ∧
      archive.header.count.toNat = resources.length ∧
      archive.header.checksum = Checksum.ofBytes archive.data ∧
      archive.data = resources.flatten ∧
      archive.records = image.records ∧
      (∀ (i : Nat) (hi : i < resources.length) (index : Int32), index.toInt = i + 1 →
        archive.extract index = .ok resources[i] ∧
          ∃ record, archive.find index = .ok record ∧ archive.records[i]? = some record ∧
            record.checksum = Checksum.ofBytes resources[i]) ∧
      ∀ index : Int32, ¬ (1 ≤ index.toInt ∧ index.toInt ≤ resources.length) →
        archive.extract index = .error (.notFound path index) := by
  obtain ⟨archive, opened, rfl, table, holds⟩ := ofBytes_assemble path assembled
  refine ⟨archive, opened, holds.count, by rw [holds.data, holds.checksum], holds.data, table,
    ?_, fun index outside => holds.extract_notFound outside⟩
  intro i hi index hindex
  obtain ⟨record, found, slot⟩ := holds.find hi hindex
  obtain ⟨_, there, _, _, _, checksum⟩ := holds.record hi
  cases slot.symm.trans there
  exact ⟨holds.extract hi hindex, record, found, slot, checksum⟩

/-- Three resources, the second one empty. -/
theorem three_resources_read_back :
    ∃ image archive, assemble [[1, 2], [], [3]] = .ok image ∧
      ofBytes ⟨"p"⟩ image.toBytes = .ok archive ∧ archive.header.count.toNat = 3 ∧
      archive.data = [1, 2, 3] ∧ archive.extract 1 = .ok [1, 2] ∧ archive.extract 2 = .ok [] ∧
      archive.extract 3 = .ok [3] ∧ archive.extract 4 = .error (.notFound ⟨"p"⟩ 4) := by
  have assembled : assemble [[1, 2], [], [3]] = .ok _ :=
    assemble_eq_ok_iff.mpr ⟨by decide, by decide, rfl⟩
  obtain ⟨archive, opened, count, _, data, _, inside, outside⟩ :=
    assembled_reads_back ⟨"p"⟩ _ _ assembled
  exact ⟨_, archive, assembled, opened, count, data, (inside 0 (by decide) 1 rfl).1,
    (inside 1 (by decide) 2 rfl).1, (inside 2 (by decide) 3 rfl).1, outside 4 (by decide)⟩

end Archive

end ResourcePack.Pack
