import ResourcePack.Proofs.Pack.Opening
import ResourcePack.Proofs.Pack.RoundTrip

/-!
# Packs by addresses

A machine finds records and data by computing addresses, and it stops where an address
does not fit a machine word or where no byte is. Here is the reader in this form, with
both faults as outcomes. It never meets one, whatever the bytes are, and it answers as the
reader that takes byte strings apart. With what opening reads, this makes up what happens
to any file.
-/

namespace ResourcePack.Pack

/-- What stops a machine. -/
inductive Fault where
  /-- An address does not fit. -/
  | overflow
  /-- There is no byte at an address. -/
  | outOfRange
  deriving DecidableEq, Repr

/-- Addresses are below this. -/
def addressLimit : Nat := 2 ^ 64

/-- A computed address. -/
def address (n : Nat) : Except Fault Nat :=
  if n < addressLimit then .ok n else .error .overflow

/-- The byte at an address. -/
def byteAt (bytes : Bytes) (place : Nat) : Except Fault UInt8 :=
  match bytes[place]? with
  | some byte => .ok byte
  | none => .error .outOfRange

/-- The word at an address. -/
def wordAt (bytes : Bytes) (place : Nat) : Except Fault UInt32 := do
  return Word.ofLittleEndian (← byteAt bytes place) (← byteAt bytes (← address (place + 1)))
    (← byteAt bytes (← address (place + 2))) (← byteAt bytes (← address (place + 3)))

/-- The bytes from an address on. -/
def bytesAt (bytes : Bytes) (place size : Nat) : Except Fault Bytes :=
  (List.range' place size).mapM (byteAt bytes)

/-- The header, if there are enough bytes for one. -/
def headerOf? (bytes : Bytes) : Except Fault (Option Header) :=
  if bytes.length < 8 then .ok none
  else do
    let count ← wordAt bytes 0
    let checksum ← wordAt bytes 4
    return some { count, checksum }

/-- The record at an address. -/
def recordAt (bytes : Bytes) (place : Nat) : Except Fault Record := do
  let index ← wordAt bytes place
  let offset ← wordAt bytes (← address (place + 4))
  let size ← wordAt bytes (← address (place + 8))
  let checksum ← wordAt bytes (← address (place + 12))
  return { index := index.toInt32, offset := offset.toInt32, size := size.toInt32, checksum }

/-- The records in `left` slots from `slot` on, or the first slot that is missing. -/
def recordsAt (bytes : Bytes) (slot : Nat) : (left : Nat) → Except Fault (Except Nat (List Record))
  | 0 => .ok (.ok [])
  | left + 1 => do
    let place ← address (tableOffset + (← address (slot * recordSize)))
    let stop ← address (place + recordSize)
    if bytes.length < stop then return .error slot
    else
      let record ← recordAt bytes place
      return (← recordsAt bytes (slot + 1) left).map (record :: ·)

namespace Archive

/-- Open the pack in `bytes`. -/
def openAt (path : Path) (bytes : Bytes) : Except Fault (Except Error Archive) := do
  match ← headerOf? bytes with
  | none => return .error (.truncated path (missingHeader bytes.length))
  | some header =>
    match ← recordsAt bytes 0 header.count.toNat with
    | .error slot => return .error (.truncated path (missingRecord slot header.count.toNat))
    | .ok records => return .ok { path, header, records, bytes }

/-- The bytes a record points to, if the file has all of them. -/
def sliceAt? (archive : Archive) (record : Record) : Except Fault (Option Bytes) :=
  if record.offset < 0 ∨ record.size < 0 then .ok none
  else do
    let start ← address (dataOffset + record.offset.toNatClampNeg)
    let stop ← address (start + record.size.toNatClampNeg)
    if archive.bytes.length < stop then return none
    else return some (← bytesAt archive.bytes start record.size.toNatClampNeg)

/-- The data of the resource stored under `index`. -/
def extractAt (archive : Archive) (index : Int32) : Except Fault (Except Error Bytes) :=
  match archive.find index with
  | .error cause => .ok (.error cause)
  | .ok record => do
    match ← archive.sliceAt? record with
    | some data => return .ok data
    | none =>
      return .error (.truncated archive.path (missingData index record.offset record.size))

end Archive

theorem address_of_lt {n : Nat} (fits : n < addressLimit) : address n = .ok n := if_pos fits

theorem byteAt_of_some {bytes : Bytes} {place : Nat} {byte : UInt8}
    (there : bytes[place]? = some byte) : byteAt bytes place = .ok byte := by
  rw [byteAt, there]

theorem wordAt_of_take {bytes : Bytes} {place : Nat} {next : UInt32 × Bytes}
    (fits : place + 4 ≤ addressLimit)
    (taken : Word.takeLittleEndian? (bytes.drop place) = some next) :
    wordAt bytes place = .ok next.1 := by
  obtain ⟨a, b, c, d, rest, spelled, rfl⟩ := Word.takeLittleEndian?_eq_some taken
  have byte (i : Nat) : bytes[place + i]? = (a :: b :: c :: d :: rest)[i]? := by
    rw [← spelled, List.getElem?_drop]
  have first : bytes[place]? = some a := byte 0
  simp only [wordAt, byteAt_of_some first, byteAt_of_some (byte 1), byteAt_of_some (byte 2),
    byteAt_of_some (byte 3), address_of_lt (show place + 1 < addressLimit by omega),
    address_of_lt (show place + 2 < addressLimit by omega),
    address_of_lt (show place + 3 < addressLimit by omega), bind, Except.bind]
  rfl

theorem bytesAt_of_le {bytes : Bytes} {place size : Nat} (inside : place + size ≤ bytes.length) :
    bytesAt bytes place size = .ok ((bytes.drop place).take size) := by
  induction size generalizing place with
  | zero => rfl
  | succ size ih =>
      have there : place < bytes.length := by omega
      have here : byteAt bytes place = .ok bytes[place] :=
        byteAt_of_some (List.getElem?_eq_getElem there)
      have others : (List.range' (place + 1) size).mapM (byteAt bytes) =
          .ok ((bytes.drop (place + 1)).take size) := ih (by omega)
      rw [bytesAt, List.range'_succ, List.mapM_cons, here, others,
        List.drop_eq_getElem_cons there, List.take_succ_cons]
      rfl

/-- The header is read as it is taken off the front. -/
theorem headerOf?_eq (bytes : Bytes) : headerOf? bytes = .ok (Header.ofBytes? bytes) := by
  by_cases short : bytes.length < 8
  · rw [headerOf?, if_pos short, Header.ofBytes?_of_lt short]
  · obtain ⟨count, checksum, first, second, found⟩ :=
      Header.ofBytes?_of_le (Nat.le_of_not_lt short)
    have start : Word.takeLittleEndian? (bytes.drop 0) = some (count, bytes.drop 4) := first
    rw [headerOf?, if_neg short, found, wordAt_of_take (by decide) start,
      wordAt_of_take (by decide) second]
    rfl

/-- A record is read as it is taken off what starts at its address. -/
theorem recordAt_of_le {bytes : Bytes} {place : Nat} (fits : place + recordSize ≤ addressLimit)
    (inside : place + recordSize ≤ bytes.length) :
    ∃ record, Record.take? (bytes.drop place) = some (record, bytes.drop (place + recordSize)) ∧
      recordAt bytes place = .ok record := by
  have long : recordSize ≤ (bytes.drop place).length := by
    rw [List.length_drop]
    omega
  obtain ⟨index, offset, size, checksum, first, second, third, fourth, taken⟩ :=
    Record.take?_of_le long
  rw [List.drop_drop] at second third fourth taken
  rw [recordSize] at fits
  refine ⟨_, taken, ?_⟩
  simp only [recordAt, wordAt_of_take (by omega) first, wordAt_of_take (by omega) second,
    wordAt_of_take (by omega) third, wordAt_of_take (by omega) fourth,
    address_of_lt (show place + 4 < addressLimit by omega),
    address_of_lt (show place + 8 < addressLimit by omega),
    address_of_lt (show place + 12 < addressLimit by omega), bind, Except.bind]
  rfl

/-- No table is so long that the address of a slot would not fit. -/
theorem recordsAt_eq (bytes : Bytes) (slot : Nat) {left : Nat} (fits : slot + left ≤ UInt32.size) :
    recordsAt bytes slot left =
      .ok (takeRecords (bytes.drop (Record.position slot)) slot left) := by
  induction left generalizing slot with
  | zero => rfl
  | succ left ih =>
      have start : Record.position slot = tableOffset + slot * recordSize := rfl
      have limit : tableOffset + slot * recordSize + recordSize < addressLimit := by
        rw [UInt32.size] at fits
        rw [tableOffset, recordSize, addressLimit]
        omega
      have further : Record.position (slot + 1) = Record.position slot + recordSize := by
        rw [Record.position, Record.position, Nat.succ_mul, Nat.add_assoc]
      have others := ih (slot + 1) (by omega)
      simp only [recordsAt, address_of_lt (show slot * recordSize < addressLimit by omega),
        address_of_lt (show tableOffset + slot * recordSize < addressLimit by omega),
        address_of_lt limit, bind, Except.bind]
      rw [← start] at limit ⊢
      by_cases short : bytes.length < Record.position slot + recordSize
      · have missing : (bytes.drop (Record.position slot)).length < recordSize := by
          rw [List.length_drop]
          rw [recordSize] at short ⊢
          omega
        rw [if_pos short, takeRecords, Record.take?_of_lt missing]
        rfl
      · obtain ⟨record, taken, read⟩ :=
          recordAt_of_le (Nat.le_of_lt limit) (Nat.le_of_not_lt short)
        rw [if_neg short, takeRecords, taken, read, others, further]
        rfl

namespace Archive

/-- Opening a pack by addresses never goes wrong, and it gives what opening gives. -/
theorem openAt_eq (path : Path) (bytes : Bytes) :
    openAt path bytes = .ok (ofBytes path bytes) := by
  rw [openAt, headerOf?_eq, ofBytes]
  cases Header.ofBytes? bytes with
  | none => rfl
  | some header =>
      have fits : 0 + header.count.toNat ≤ UInt32.size := by
        have := header.count.toNat_lt
        rw [UInt32.size]
        omega
      simp only [recordsAt_eq bytes 0 fits, bind, Except.bind]
      have start : Record.position 0 = tableOffset := rfl
      rw [start]
      cases takeRecords (bytes.drop tableOffset) 0 header.count.toNat with
      | error slot => rfl
      | ok records => rfl

/-- The bounds of a record's data fit, since its numbers are at most 31 bits long. -/
theorem sliceAt?_eq (archive : Archive) (record : Record) :
    archive.sliceAt? record = .ok (archive.slice? record) := by
  by_cases negative : record.offset < 0 ∨ record.size < 0
  · rw [sliceAt?, slice?, if_pos negative, if_pos negative]
  · have offset := record.offset.toInt_lt
    have size := record.size.toInt_lt
    have limit : dataOffset + record.offset.toNatClampNeg + record.size.toNatClampNeg <
        addressLimit := by
      rw [← Int32.toNat_toInt, ← Int32.toNat_toInt, dataOffset, addressLimit]
      omega
    simp only [sliceAt?, slice?, if_neg negative, address_of_lt limit,
      address_of_lt (show dataOffset + record.offset.toNatClampNeg < addressLimit by omega),
      bind, Except.bind]
    by_cases past : archive.bytes.length <
        dataOffset + record.offset.toNatClampNeg + record.size.toNatClampNeg
    · rw [if_pos past, if_pos past]
      rfl
    · rw [if_neg past, if_neg past, bytesAt_of_le (Nat.le_of_not_lt past)]
      rfl

/-- Extracting by addresses never goes wrong, and it gives what extracting gives. -/
theorem extractAt_eq (archive : Archive) (index : Int32) :
    archive.extractAt index = .ok (archive.extract index) := by
  rw [extractAt, extract]
  cases archive.find index with
  | error cause => rfl
  | ok record =>
      simp only [sliceAt?_eq, bind, Except.bind]
      cases archive.slice? record with
      | none => rfl
      | some data => rfl

/-- What happens with any bytes. Their number decides whether they open as a pack; if they
do not, the first thing that is missing is named. The first record with an index decides
what is extracted under it, wherever it points. Done by addresses, nothing overflows and
no byte is looked for where there is none. -/
theorem any_bytes_open_or_are_short (path : Path) (bytes : Bytes) :
    ((∃ archive, ofBytes path bytes = .ok archive) ↔
      8 ≤ bytes.length ∧
        (storedCount bytes = 0 ∨ 12 + 16 * storedCount bytes ≤ bytes.length)) ∧
    (bytes.length < 8 → ofBytes path bytes =
      .error (.truncated path s!"{bytes.length} bytes is too short for the header")) ∧
    (8 ≤ bytes.length → storedCount bytes ≠ 0 → bytes.length < 12 + 16 * storedCount bytes →
      ofBytes path bytes = .error (.truncated path
        s!"table record {(bytes.length - 12) / 16} of {storedCount bytes} is missing")) ∧
    (∀ archive, ofBytes path bytes = .ok archive → archive.Reads path bytes ∧
      (∀ index, archive.extract index = .error (.notFound path index) ↔
        ∀ record ∈ archive.records, record.index ≠ index) ∧
      ∀ before record after, archive.records = before ++ record :: after →
        (∀ other ∈ before, other.index ≠ record.index) →
        (archive.Within record → ∃ data, archive.extract record.index = .ok data ∧
          data = (bytes.drop (0x200C + record.offset.toInt.toNat)).take record.size.toInt.toNat ∧
          (data.length : Int) = record.size.toInt) ∧
        (¬ archive.Within record → archive.extract record.index = .error (.truncated path
    s!"res {record.index} claims offset {record.offset} size {record.size} beyond end of file"))) ∧
    openAt path bytes = .ok (ofBytes path bytes) ∧
    ∀ (archive : Archive) (index : Int32),
      archive.extractAt index = .ok (archive.extract index) := by
  refine ⟨exists_ofBytes_iff path bytes, ofBytes_of_short path, ofBytes_of_lt path, ?_,
    openAt_eq path bytes, extractAt_eq⟩
  intro archive opened
  have reads := reads_of_ofBytes opened
  refine ⟨reads, ?_, ?_⟩
  · intro index
    rw [← reads.path]
    exact extract_eq_notFound_iff
  · intro before record after table first
    constructor
    · intro within
      refine ⟨_, ?_, rfl, ?_⟩
      · rw [extract_of_first table first, slice?_of_within within, reads.content]
      · obtain ⟨offset, size, inside⟩ := within
        rw [reads.content] at inside
        rw [List.length_take, List.length_drop]
        omega
    · intro outside
      rw [extract_of_first table first, slice?_of_not_within outside, reads.path]
      rfl

/-- A table with an index twice and a record that is negative throughout. -/
theorem odd_table_opens :
    ∃ (image : Image) (archive : Archive),
      image.records = [⟨7, 0, 2, 0⟩, ⟨-1, -4, -2, 0⟩, ⟨7, 1, 1, 0⟩] ∧
      image.data = [0xAA, 0xBB] ∧ ofBytes ⟨"p"⟩ image.toBytes = .ok archive ∧
      archive.extract 7 = .ok [0xAA, 0xBB] ∧
      archive.extract (-1) = .error (.truncated ⟨"p"⟩
        "res -1 claims offset -4 size -2 beyond end of file") ∧
      archive.extract 0 = .error (.notFound ⟨"p"⟩ 0) := by
  let image : Image :=
    { records := [⟨7, 0, 2, 0⟩, ⟨-1, -4, -2, 0⟩, ⟨7, 1, 1, 0⟩], data := [0xAA, 0xBB] }
  have room : image.records.length ≤ capacity := by decide
  have opened := Image.ofBytes_toBytes ⟨"p"⟩ room
  obtain ⟨-, -, -, read, -⟩ := any_bytes_open_or_are_short ⟨"p"⟩ image.toBytes
  obtain ⟨-, missing, first⟩ := read _ opened
  refine ⟨image, _, rfl, rfl, opened, ?_, ?_, (missing 0).mpr (by decide)⟩
  · have last : (0x200C + (0 : Int) + 2) ≤ (image.toBytes.length : Int) := by
      rw [Image.length_toBytes room]
      decide
    obtain ⟨data, found, same, -⟩ :=
      (first [] _ _ rfl (by decide)).1 ⟨by decide, by decide, last⟩
    change data = (image.toBytes.drop dataOffset).take 2 at same
    rw [Image.drop_dataOffset room] at same
    rw [found, same]
    rfl
  · exact (first [_] _ _ rfl (by decide)).2 fun within => absurd within.1 (by decide)

end Archive

end ResourcePack.Pack
