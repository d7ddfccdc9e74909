import ResourcePack.Pack.Archive
import ResourcePack.Proofs.WordValue

/-!
# Opening what may not be a pack

A file that comes from elsewhere can have any bytes. How many of them there are decides
alone whether it opens: it needs a header, and after that a record for each one that the
header counts. What is read then is what stands at fixed places, and only the first
record with an index counts, wherever in the file it points.
-/

namespace ResourcePack.Pack

/-- The number of records that a file says it has. -/
def storedCount (bytes : Bytes) : Nat := Word.littleEndianValue (bytes.take 4)

namespace Header

theorem ofBytes?_of_le {data : Bytes} (long : 8 ≤ data.length) :
    ∃ count checksum, Word.takeLittleEndian? data = some (count, data.drop 4) ∧
      Word.takeLittleEndian? (data.drop 4) = some (checksum, data.drop 8) ∧
      ofBytes? data = some { count, checksum } := by
  obtain ⟨count, first⟩ := Word.takeLittleEndian?_of_le data (by omega)
  obtain ⟨checksum, second⟩ := Word.takeLittleEndian?_drop data 4 (by omega)
  exact ⟨count, checksum, first, second, by simp [ofBytes?, first, second]⟩

theorem ofBytes?_of_lt {data : Bytes} (short : data.length < 8) : ofBytes? data = none := by
  apply Option.eq_none_iff_forall_ne_some.mpr
  intro header found
  simp only [ofBytes?, Option.bind_eq_bind, Option.bind_eq_some_iff] at found
  obtain ⟨_, first, _, second, -⟩ := found
  have afterCount := Word.length_of_takeLittleEndian? first
  have afterChecksum := Word.length_of_takeLittleEndian? second
  omega

end Header

namespace Record

/-- A record is made of four words. -/
theorem take?_of_le {data : Bytes} (long : recordSize ≤ data.length) :
    ∃ index offset size checksum, Word.takeLittleEndian? data = some (index, data.drop 4) ∧
      Word.takeLittleEndian? (data.drop 4) = some (offset, data.drop 8) ∧
      Word.takeLittleEndian? (data.drop 8) = some (size, data.drop 12) ∧
      Word.takeLittleEndian? (data.drop 12) = some (checksum, data.drop 16) ∧
      take? data = some ({ index := index.toInt32, offset := offset.toInt32
                           size := size.toInt32, checksum }, data.drop recordSize) := by
  rw [recordSize] at long ⊢
  obtain ⟨index, first⟩ := Word.takeLittleEndian?_of_le data (by omega)
  obtain ⟨offset, second⟩ := Word.takeLittleEndian?_drop data 4 (by omega)
  obtain ⟨size, third⟩ := Word.takeLittleEndian?_drop data 8 (by omega)
  obtain ⟨checksum, fourth⟩ := Word.takeLittleEndian?_drop data 12 (by omega)
  exact ⟨index, offset, size, checksum, first, second, third, fourth,
    by simp [take?, first, second, third, fourth]⟩

/-- The record is the sixteen bytes `data`: three signed numbers and a checksum. -/
structure Decodes (record : Record) (data : Bytes) : Prop where
  length : data.length = recordSize
  index : record.index.toInt = Word.signedValue (data.take 4)
  offset : record.offset.toInt = Word.signedValue ((data.drop 4).take 4)
  size : record.size.toInt = Word.signedValue ((data.drop 8).take 4)
  checksum : record.checksum.toNat = Word.littleEndianValue ((data.drop 12).take 4)

theorem exists_decodes (data : Bytes) (long : recordSize ≤ data.length) :
    ∃ record, take? data = some (record, data.drop recordSize) ∧
      record.Decodes (data.take recordSize) := by
  obtain ⟨index, offset, size, checksum, first, second, third, fourth, taken⟩ := take?_of_le long
  refine ⟨_, taken, ?_, ?_, ?_, ?_, ?_⟩
  · rw [List.length_take, Nat.min_eq_left long]
  · simpa [recordSize, List.take_take] using Word.toInt_of_takeLittleEndian? first
  · simpa [recordSize, List.drop_take, List.take_take] using Word.toInt_of_takeLittleEndian? second
  · simpa [recordSize, List.drop_take, List.take_take] using Word.toInt_of_takeLittleEndian? third
  · simpa [recordSize, List.drop_take, List.take_take] using Word.toNat_of_takeLittleEndian? fourth

theorem take?_of_lt {data : Bytes} (short : data.length < recordSize) : take? data = none := by
  apply Option.eq_none_iff_forall_ne_some.mpr
  intro taken found
  simp only [take?, Option.bind_eq_bind, Option.bind_eq_some_iff] at found
  obtain ⟨_, first, _, second, _, third, _, fourth, -⟩ := found
  have afterIndex := Word.length_of_takeLittleEndian? first
  have afterOffset := Word.length_of_takeLittleEndian? second
  have afterSize := Word.length_of_takeLittleEndian? third
  have afterChecksum := Word.length_of_takeLittleEndian? fourth
  rw [recordSize] at short
  omega

end Record

/-- With enough bytes every record is read, each one from its own sixteen bytes. -/
theorem takeRecords_of_le {data : Bytes} (slot : Nat) {left : Nat}
    (long : left * recordSize ≤ data.length) :
    ∃ records, takeRecords data slot left = .ok records ∧ records.length = left ∧
      ∀ (k : Nat) (hk : k < records.length),
        records[k].Decodes ((data.drop (k * recordSize)).take recordSize) := by
  induction left generalizing data slot with
  | zero => exact ⟨[], rfl, rfl, fun k hk => absurd hk (Nat.not_lt_zero k)⟩
  | succ left ih =>
      rw [Nat.succ_mul] at long
      obtain ⟨record, taken, decodes⟩ := Record.exists_decodes data (by omega)
      have rest : left * recordSize ≤ (data.drop recordSize).length := by
        rw [List.length_drop]
        omega
      obtain ⟨records, others, length, each⟩ := ih (slot + 1) rest
      refine ⟨record :: records, ?_, by rw [List.length_cons, length], ?_⟩
      · simp only [takeRecords, taken, others]
        rfl
      · intro k hk
        cases k with
        | zero => simpa using decodes
        | succ k =>
            have further := each k (Nat.lt_of_succ_lt_succ hk)
            rw [List.drop_drop, Nat.add_comm, ← Nat.succ_mul] at further
            exact further

/-- Otherwise the first record that is not there is named. -/
theorem takeRecords_of_lt {data : Bytes} (slot : Nat) {left : Nat}
    (short : data.length < left * recordSize) :
    takeRecords data slot left = .error (slot + data.length / recordSize) := by
  induction left generalizing data slot with
  | zero => simp at short
  | succ left ih =>
      rw [Nat.succ_mul] at short
      by_cases here : data.length < recordSize
      · simp only [takeRecords, Record.take?_of_lt here, Nat.div_eq_of_lt here, Nat.add_zero]
      · obtain ⟨record, taken, -⟩ := Record.exists_decodes data (Nat.le_of_not_lt here)
        have rest : (data.drop recordSize).length < left * recordSize := by
          rw [List.length_drop]
          omega
        have others := ih (slot + 1) rest
        have next : slot + 1 + (data.drop recordSize).length / recordSize =
            slot + data.length / recordSize := by
          rw [List.length_drop, Nat.div_eq_sub_div (by decide) (Nat.le_of_not_lt here)]
          omega
        simp only [takeRecords, taken, others, next]
        rfl

namespace Archive

/-- What an archive that was opened from `bytes` holds. -/
structure Reads (archive : Archive) (path : Path) (bytes : Bytes) : Prop where
  path : archive.path = path
  content : archive.bytes = bytes
  count : archive.header.count.toNat = storedCount bytes
  checksum : archive.header.checksum.toNat = Word.littleEndianValue ((bytes.drop 4).take 4)
  length : archive.records.length = storedCount bytes
  record : ∀ (k : Nat) (hk : k < archive.records.length),
    archive.records[k].Decodes ((bytes.drop (12 + 16 * k)).take 16)

/-- A file that is long enough opens. -/
theorem ofBytes_of_le (path : Path) {bytes : Bytes} (header : 8 ≤ bytes.length)
    (room : storedCount bytes = 0 ∨
      12 + 16 * storedCount bytes ≤ bytes.length) :
    ∃ archive, ofBytes path bytes = .ok archive ∧ archive.Reads path bytes := by
  obtain ⟨count, checksum, first, second, found⟩ := Header.ofBytes?_of_le header
  have stored : count.toNat = storedCount bytes := Word.toNat_of_takeLittleEndian? first
  have long : count.toNat * recordSize ≤ (bytes.drop tableOffset).length := by
    rw [stored, List.length_drop, tableOffset, recordSize]
    omega
  obtain ⟨records, taken, length, each⟩ := takeRecords_of_le 0 long
  refine ⟨⟨path, ⟨count, checksum⟩, records, bytes⟩, by simp only [ofBytes, found, taken], rfl, rfl,
    stored, Word.toNat_of_takeLittleEndian? second, by rw [length, stored], ?_⟩
  intro k hk
  have decodes := each k hk
  rw [List.drop_drop, tableOffset, recordSize, Nat.mul_comm] at decodes
  exact decodes

theorem ofBytes_of_short (path : Path) {bytes : Bytes} (short : bytes.length < 8) :
    ofBytes path bytes = .error (.truncated path (missingHeader bytes.length)) := by
  simp only [ofBytes, Header.ofBytes?_of_lt short]

theorem ofBytes_of_lt (path : Path) {bytes : Bytes} (header : 8 ≤ bytes.length)
    (some : storedCount bytes ≠ 0)
    (short : bytes.length < 12 + 16 * storedCount bytes) :
    ofBytes path bytes = .error (.truncated path (missingRecord ((bytes.length - 12) / 16)
      (storedCount bytes))) := by
  obtain ⟨count, checksum, first, second, found⟩ := Header.ofBytes?_of_le header
  have stored : count.toNat = storedCount bytes := Word.toNat_of_takeLittleEndian? first
  have missing : (bytes.drop tableOffset).length < count.toNat * recordSize := by
    rw [stored, List.length_drop, tableOffset, recordSize]
    omega
  have refused := takeRecords_of_lt 0 missing
  rw [Nat.zero_add, List.length_drop] at refused
  simp only [ofBytes, found, refused]
  rw [stored]
  rfl

/-- The number of bytes decides alone whether a file opens. -/
theorem exists_ofBytes_iff (path : Path) (bytes : Bytes) :
    (∃ archive, ofBytes path bytes = .ok archive) ↔
      8 ≤ bytes.length ∧
        (storedCount bytes = 0 ∨ 12 + 16 * storedCount bytes ≤ bytes.length) := by
  constructor
  · rintro ⟨archive, opened⟩
    by_cases header : 8 ≤ bytes.length
    · refine ⟨header, ?_⟩
      by_contra refused
      rw [not_or, Nat.not_le] at refused
      rw [ofBytes_of_lt path header refused.1 refused.2] at opened
      cases opened
    · rw [ofBytes_of_short path (Nat.lt_of_not_le header)] at opened
      cases opened
  · rintro ⟨header, room⟩
    obtain ⟨archive, opened, -⟩ := ofBytes_of_le path header room
    exact ⟨archive, opened⟩

theorem reads_of_ofBytes {path : Path} {bytes : Bytes} {archive : Archive}
    (opened : ofBytes path bytes = .ok archive) : archive.Reads path bytes := by
  obtain ⟨header, room⟩ := (exists_ofBytes_iff path bytes).mp ⟨archive, opened⟩
  obtain ⟨same, again, reads⟩ := ofBytes_of_le path header room
  rw [opened] at again
  cases again
  exact reads

/-- An index is missing exactly if no record stores it. A record that points outside the
file is another failure. -/
theorem extract_eq_notFound_iff {archive : Archive} {index : Int32} :
    archive.extract index = .error (.notFound archive.path index) ↔
      ∀ record ∈ archive.records, record.index ≠ index := by
  unfold extract find
  cases found : archive.records.find? (·.index = index) with
  | none =>
      rw [List.find?_eq_none] at found
      constructor
      · intro _ record member
        simpa using found record member
      · intro _
        rfl
  | some record =>
      have stored : record.index = index := by simpa using List.find?_some found
      constructor
      · intro missing
        simp only [bind, Except.bind] at missing
        split at missing
        · cases missing
        · cases missing
      · intro absent
        exact absurd stored (absent record (List.mem_of_find?_eq_some found))

/-- The data of a record that lies in the file. -/
def Within (archive : Archive) (record : Record) : Prop :=
  0 ≤ record.offset.toInt ∧ 0 ≤ record.size.toInt ∧
    0x200C + record.offset.toInt + record.size.toInt ≤ archive.bytes.length

theorem slice?_of_within {archive : Archive} {record : Record} (within : archive.Within record) :
    archive.slice? record =
      some ((archive.bytes.drop (0x200C + record.offset.toInt.toNat)).take
        record.size.toInt.toNat) := by
  obtain ⟨offset, size, inside⟩ := within
  have positive : ¬ (record.offset < 0 ∨ record.size < 0) := by
    rw [Int32.lt_iff_toInt_lt, Int32.lt_iff_toInt_lt, Int32.toInt_zero]
    omega
  have there : ¬ archive.bytes.length <
      dataOffset + record.offset.toInt.toNat + record.size.toInt.toNat := by
    rw [dataOffset]
    omega
  simp only [slice?, if_neg positive, ← Int32.toNat_toInt, if_neg there]
  rfl

theorem slice?_of_not_within {archive : Archive} {record : Record}
    (outside : ¬ archive.Within record) : archive.slice? record = none := by
  by_cases negative : record.offset < 0 ∨ record.size < 0
  · rw [slice?, if_pos negative]
  · have past : archive.bytes.length <
        dataOffset + record.offset.toInt.toNat + record.size.toInt.toNat := by
      rw [Int32.lt_iff_toInt_lt, Int32.lt_iff_toInt_lt, Int32.toInt_zero] at negative
      unfold Within at outside
      rw [dataOffset]
      omega
    simp only [slice?, if_neg negative, ← Int32.toNat_toInt, if_pos past]

/-- Of several records with an index, the first one counts. -/
theorem extract_of_first {archive : Archive} {before after : List Record} {record : Record}
    (table : archive.records = before ++ record :: after)
    (first : ∀ other ∈ before, other.index ≠ record.index) :
    archive.extract record.index = match archive.slice? record with
      | some data => .ok data
      | none =>
        .error (.truncated archive.path (missingData record.index record.offset record.size)) := by
  have found : archive.records.find? (·.index = record.index) = some record := by
    refine List.find?_eq_some_iff_append.mpr ⟨by simp, before, after, table, ?_⟩
    intro other member
    simpa using first other member
  cases slice : archive.slice? record with
  | none => simp only [extract, find, found, slice, bind, Except.bind]
  | some data => simp only [extract, find, found, slice, bind, Except.bind]

end Archive

end ResourcePack.Pack
