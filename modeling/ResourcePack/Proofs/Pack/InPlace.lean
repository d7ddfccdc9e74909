import ResourcePack.Proofs.Pack.Addresses

/-!
# Packs made in place

A machine makes a file of a given size, all zero, and copies records, data and header to
their addresses. The checksum is that of the data region as it is then, so it is right only
if no copy has gone astray. Here is the assembler in this form. What it copies lies side by
side, region after region, and fills exactly the places that a plain concatenation of header,
table and data fills.
-/

namespace ResourcePack.Pack

/-- Bytes that nothing has been copied to. -/
def zeros (count : Nat) : Bytes := List.replicate count 0

@[simp] theorem length_zeros (count : Nat) : (zeros count).length = count :=
  List.length_replicate

theorem zeros_add (count more : Nat) : zeros (count + more) = zeros count ++ zeros more :=
  List.replicate_add ..

/-- Bytes to be copied to an address. -/
structure Copy where
  place : Nat
  bytes : Bytes
  deriving DecidableEq, Repr

namespace Copy

/-- The address after the last byte. -/
def stop (copy : Copy) : Nat := copy.place + copy.bytes.length

/-- One copy ends where the other starts or before. -/
def Before (copy other : Copy) : Prop := copy.stop ≤ other.place

/-- All bytes go to addresses from `start` on and before `stop`. -/
def Within (copy : Copy) (start stop : Nat) : Prop := start ≤ copy.place ∧ copy.stop ≤ stop

/-- Copy to a buffer. It has to have all the addresses. -/
def run (buffer : Bytes) (copy : Copy) : Except Fault Bytes := do
  let stop ← address copy.stop
  if stop ≤ buffer.length then return buffer.take copy.place ++ copy.bytes ++ buffer.drop stop
  else .error .outOfRange

/-- Copies of pieces one after the other, from an address on. -/
def sideBySide (place : Nat) : List Bytes → List Copy
  | [] => []
  | piece :: pieces => ⟨place, piece⟩ :: sideBySide (place + piece.length) pieces

end Copy

/-- The numbers in a record are taken for addresses as they are, negative ones for what is
below the limit. -/
def extent (n : Int32) : Nat := n.toInt64.toUInt64.toNat

/-- Every record goes to its slot. -/
def recordCopies (records : List Record) : List Copy :=
  records.mapIdx fun slot record => ⟨Record.position slot, record.toBytes⟩

/-- The data of a resource goes where its record says. -/
def dataCopies (records : List Record) (resources : List Bytes) : List Copy :=
  List.zipWith (fun record resource => ⟨dataOffset + extent record.offset, resource⟩)
    records resources

/-- The numbers of the header go to the front. -/
def headerCopies (header : Header) : List Copy :=
  [⟨0, Word.littleEndian header.count⟩, ⟨4, Word.littleEndian header.checksum⟩]

/-- Records that have been made, and where the next resource goes. -/
structure Placed where
  records : List Record
  cursor : Cursor

/-- Place one more resource. -/
def Placed.push (placed : Placed) (resource : Bytes) : Except Error Placed := do
  let (record, cursor) ← placed.cursor.place resource
  return { records := placed.records ++ [record], cursor }

/-- A pack as the bytes of its file. -/
structure File where
  records : List Record
  checksum : UInt32
  bytes : Bytes
  deriving DecidableEq, Repr

/-- The bytes of a file, copy by copy. -/
def fill (placed : Placed) (resources : List Bytes) : Except Fault File := do
  let size ← address (dataOffset + extent placed.cursor.offset)
  let table ← (recordCopies placed.records).foldlM Copy.run (zeros size)
  let filled ← (dataCopies placed.records resources).foldlM Copy.run table
  let checksum := Checksum.ofBytes (filled.drop dataOffset)
  let header : Header := { count := .ofNat placed.records.length, checksum }
  let bytes ← (headerCopies header).foldlM Copy.run filled
  return { records := placed.records, checksum, bytes }

/-- Lay out resources in place. -/
def assembleAt (resources : List Bytes) : Except Fault (Except Error File) :=
  if capacity < resources.length then .ok (.error (.tableFull resources.length capacity))
  else
    match resources.foldlM Placed.push { records := [], cursor := .start } with
    | .error cause => .ok (.error cause)
    | .ok placed => (fill placed resources).map .ok

namespace Copy

/-- A copy replaces as many bytes as it has and leaves those before and after it alone. -/
theorem run_hole (before : Bytes) {old : Bytes} (after : Bytes) {piece : Bytes}
    (same : old.length = piece.length)
    (fits : (before ++ old).length < addressLimit) :
    run (before ++ (old ++ after)) ⟨before.length, piece⟩ = .ok (before ++ (piece ++ after)) := by
  have stop : Copy.stop ⟨before.length, piece⟩ = (before ++ old).length := by
    rw [Copy.stop, List.length_append, same]
  have room : (before ++ old).length ≤ (before ++ (old ++ after)).length := by
    simp only [List.length_append]
    omega
  have rest : (before ++ (old ++ after)).drop (before ++ old).length = after := by
    rw [← List.append_assoc, List.drop_left]
  simp only [run, stop, address_of_lt fits, bind, Except.bind, if_pos room, rest]
  rw [List.take_left, List.append_assoc]
  rfl

/-- Copies side by side replace what was there by the concatenation of their pieces. -/
theorem foldlM_sideBySide (before : Bytes) {old : Bytes} (after : Bytes) {pieces : List Bytes}
    (same : old.length = pieces.flatten.length)
    (fits : (before ++ old).length < addressLimit) :
    (sideBySide before.length pieces).foldlM run (before ++ (old ++ after)) =
      .ok (before ++ (pieces.flatten ++ after)) := by
  induction pieces generalizing before old with
  | nil =>
      obtain rfl := List.eq_nil_of_length_eq_zero same
      rfl
  | cons piece pieces ih =>
      rw [List.flatten_cons, List.length_append] at same
      -- What is replaced falls apart into the room of the first piece and that of the others.
      have first : (old.take piece.length).length = piece.length := by
        rw [List.length_take]
        omega
      have others : (old.drop piece.length).length = pieces.flatten.length := by
        rw [List.length_drop]
        omega
      rw [List.length_append] at fits
      have here : (before ++ old.take piece.length).length < addressLimit := by
        rw [List.length_append]
        omega
      have there : (before ++ piece ++ old.drop piece.length).length < addressLimit := by
        rw [List.length_append, List.length_append]
        omega
      have step := run_hole before (old.drop piece.length ++ after) first here
      rw [← List.append_assoc (old.take _), List.take_append_drop] at step
      have rest := ih _ others there
      rw [List.length_append, List.append_assoc, List.append_assoc] at rest
      rw [sideBySide, List.foldlM_cons, step, List.flatten_cons, List.append_assoc]
      exact rest

theorem within_of_mem_sideBySide {place : Nat} {pieces : List Bytes} {copy : Copy}
    (member : copy ∈ sideBySide place pieces) :
    copy.Within place (place + pieces.flatten.length) := by
  induction pieces generalizing place with
  | nil => cases member
  | cons piece pieces ih =>
      rw [List.flatten_cons, List.length_append]
      rcases List.mem_cons.mp member with rfl | member
      · exact ⟨Nat.le_refl _, by simp only [Copy.stop]; omega⟩
      · obtain ⟨start, stop⟩ := ih member
        exact ⟨by omega, by omega⟩

theorem pairwise_sideBySide (place : Nat) (pieces : List Bytes) :
    (sideBySide place pieces).Pairwise Before := by
  induction pieces generalizing place with
  | nil => exact .nil
  | cons piece pieces ih =>
      refine .cons ?_ (ih _)
      intro other member
      exact (within_of_mem_sideBySide member).1

theorem Within.mono {copy : Copy} {start stop first last : Nat} (within : copy.Within start stop)
    (before : first ≤ start) (after : stop ≤ last) : copy.Within first last :=
  ⟨Nat.le_trans before within.1, Nat.le_trans within.2 after⟩

/-- Copies to two regions, one after the other, do not meet. -/
theorem pairwise_append {copies others : List Copy} {start stop next last : Nat}
    (first : copies.Pairwise Before) (second : others.Pairwise Before)
    (low : ∀ copy ∈ copies, copy.Within start stop)
    (high : ∀ copy ∈ others, copy.Within next last) (apart : stop ≤ next) :
    (copies ++ others).Pairwise Before := by
  refine List.pairwise_append.mpr ⟨first, second, ?_⟩
  intro copy member other another
  exact Nat.le_trans (low copy member).2 (Nat.le_trans apart (high other another).1)

end Copy

theorem length_flatten_toBytes (records : List Record) :
    (records.map Record.toBytes).flatten.length = recordSize * records.length := by
  simp [List.length_flatten, Function.comp_def, List.map_const', Nat.mul_comm]

/-- The slots of the table are next to each other. -/
theorem recordCopies_eq (records : List Record) :
    recordCopies records = Copy.sideBySide tableOffset (records.map Record.toBytes) := by
  have slots (slot : Nat) : (records.mapIdx fun n record =>
      (⟨Record.position (slot + n), record.toBytes⟩ : Copy)) =
        Copy.sideBySide (Record.position slot) (records.map Record.toBytes) := by
    induction records generalizing slot with
    | nil => rfl
    | cons record records ih =>
        have further : Record.position slot + record.toBytes.length =
            Record.position (slot + 1) := by
          rw [Record.length_toBytes, Record.position, Record.position, Nat.succ_mul, Nat.add_assoc]
        have others := ih (slot + 1)
        simp only [List.mapIdx_cons, List.map_cons, Copy.sideBySide, further, Nat.add_zero]
        rw [← others]
        simp only [Nat.add_assoc, Nat.add_comm 1]
  have all := slots 0
  simp only [Nat.zero_add] at all
  exact all

theorem extent_ofNat {n : Nat} (small : n ≤ offsetLimit) : extent (.ofNat n) = n := by
  have below : n < 2 ^ 31 := Nat.lt_succ_of_le small
  have positive : 0 ≤ (Int32.ofNat n).toInt64 := by
    rw [Int64.le_iff_toInt_le, Int32.toInt_toInt64, Int32.toInt_ofNat_of_lt below]
    exact Int.natCast_nonneg n
  rw [extent, Int64.toNat_toUInt64_of_le positive, Int32.toNatClampNeg_toInt64,
    Int32.toNatClampNeg_ofNat_of_lt below]

theorem zipWith_laidOut (position start : Nat) {resources : List Bytes}
    (fits : start + resources.flatten.length ≤ offsetLimit) :
    dataCopies (laidOut position start resources) resources =
      Copy.sideBySide (dataOffset + start) resources := by
  induction resources generalizing position start with
  | nil => rfl
  | cons resource rest ih =>
      rw [List.flatten_cons, List.length_append] at fits
      have others := ih (position + 1) (start + resource.length) (by omega)
      rw [dataCopies] at others
      rw [dataCopies, laidOut, List.zipWith_cons_cons, others, extent_ofNat (by omega),
        Copy.sideBySide, Nat.add_assoc]

/-- Data that can be addressed is next to each other. -/
theorem dataCopies_eq {resources : List Bytes} (fits : resources.flatten.length ≤ offsetLimit) :
    dataCopies (laidOut 0 0 resources) resources = Copy.sideBySide dataOffset resources := by
  rw [zipWith_laidOut 0 0 (by rwa [Nat.zero_add]), Nat.add_zero]

/-- Placing one resource after the other gives the records that placing all of them gives, or
the same failure. -/
theorem foldlM_push (placed : Placed) (resources : List Bytes) :
    (resources.foldlM Placed.push placed).map Placed.records =
      (placeAll placed.cursor resources).map (placed.records ++ ·) := by
  induction resources generalizing placed with
  | nil => simp [placeAll, Except.map, pure, Except.pure]
  | cons resource rest ih =>
      rw [List.foldlM_cons, Placed.push, placeAll]
      cases placed.cursor.place resource with
      | error cause => rfl
      | ok next =>
          obtain ⟨record, cursor⟩ := next
          have others := ih { records := placed.records ++ [record], cursor }
          simp only [bind, Except.bind, pure, Except.pure] at others ⊢
          rw [others]
          cases placeAll cursor rest with
          | error cause => rfl
          | ok records => simp [Except.map]

/-- The cursor ends up behind all data. -/
theorem foldlM_push_at (records : List Record) (position start : Nat)
    {resources : List Bytes} (fits : start + resources.flatten.length ≤ offsetLimit) :
    resources.foldlM Placed.push { records, cursor := .at position start } =
      .ok { records := records ++ laidOut position start resources
            cursor := .at (position + resources.length) (start + resources.flatten.length) } := by
  induction resources generalizing records position start with
  | nil => simp [laidOut, pure, Except.pure]
  | cons resource rest ih =>
      rw [List.flatten_cons, List.length_append] at fits
      rw [List.foldlM_cons, Placed.push, Cursor.place_at position (by omega)]
      simp only [bind, Except.bind, pure, Except.pure]
      rw [ih _ (position + 1) _ (by omega), laidOut, List.flatten_cons, List.length_append,
        List.length_cons, List.append_assoc]
      simp only [List.singleton_append, Nat.add_assoc, Nat.add_comm 1]

/-- The records are the table, with zeros in the unused slots. -/
theorem foldlM_recordCopies {image : Image} (room : image.records.length ≤ capacity) {size : Nat}
    (fits : dataOffset + size < addressLimit) :
    (recordCopies image.records).foldlM Copy.run (zeros (dataOffset + size)) =
      .ok (zeros tableOffset ++ (image.tableBytes ++ zeros size)) := by
  have slots : recordSize * image.records.length +
      (capacity - image.records.length) * recordSize = capacity * recordSize := by
    rw [Nat.mul_comm, ← Nat.add_mul, Nat.add_sub_of_le room]
  have buffer : zeros (dataOffset + size) = zeros tableOffset ++
      (zeros (recordSize * image.records.length) ++
        (zeros ((capacity - image.records.length) * recordSize) ++ zeros size)) := by
    rw [← tableOffset_add_capacity, ← slots, zeros_add, zeros_add, zeros_add, List.append_assoc,
      List.append_assoc]
  have same : (zeros (recordSize * image.records.length)).length =
      (image.records.map Record.toBytes).flatten.length := by
    rw [length_zeros, length_flatten_toBytes]
  have limit : (zeros tableOffset ++ zeros (recordSize * image.records.length)).length <
      addressLimit := by
    rw [List.length_append, length_zeros, length_zeros]
    rw [← tableOffset_add_capacity, ← slots] at fits
    omega
  have copied := Copy.foldlM_sideBySide _
    (zeros ((capacity - image.records.length) * recordSize) ++ zeros size) same limit
  rw [length_zeros, ← recordCopies_eq, ← buffer] at copied
  rw [copied, Image.tableBytes, ← List.flatMap_def, List.append_assoc]
  rfl

/-- The data fills the rest of the buffer. -/
theorem foldlM_dataCopies {resources : List Bytes} (fits : resources.flatten.length ≤ offsetLimit)
    {front : Bytes} (here : front.length = dataOffset) :
    (dataCopies (laidOut 0 0 resources) resources).foldlM Copy.run
        (front ++ zeros resources.flatten.length) =
      .ok (front ++ resources.flatten) := by
  have limit : (front ++ zeros resources.flatten.length).length < addressLimit := by
    rw [List.length_append, length_zeros, here]
    rw [offsetLimit] at fits
    rw [dataOffset, addressLimit]
    omega
  have copied := Copy.foldlM_sideBySide front [] (length_zeros _) limit
  rw [here, List.append_nil, List.append_nil] at copied
  rw [dataCopies_eq fits, copied]

/-- The header leaves four bytes before the table as they are. -/
theorem foldlM_headerCopies (header : Header) (rest : Bytes) :
    (headerCopies header).foldlM Copy.run (zeros tableOffset ++ rest) =
      .ok (header.toBytes ++ [0, 0, 0, 0] ++ rest) := by
  have same : (zeros 8).length =
      [Word.littleEndian header.count, Word.littleEndian header.checksum].flatten.length := rfl
  have copied := Copy.foldlM_sideBySide [] ([0, 0, 0, 0] ++ rest) same (by decide)
  simpa [headerCopies, Copy.sideBySide, Header.toBytes, zeros, tableOffset] using copied

/-- The three kinds of copies make the file of the image. -/
theorem fill_laidOut {resources : List Bytes} (room : resources.length ≤ capacity)
    (fits : resources.flatten.length ≤ offsetLimit) :
    let image : Image := ⟨laidOut 0 0 resources, resources.flatten⟩
    fill { records := image.records, cursor := .at resources.length resources.flatten.length }
        resources = .ok ⟨image.records, image.checksum, image.toBytes⟩ := by
  intro image
  have table : image.records.length ≤ capacity := by rwa [length_laidOut]
  have limit : dataOffset + resources.flatten.length < addressLimit := by
    rw [offsetLimit] at fits
    rw [dataOffset, addressLimit]
    omega
  have front : (zeros tableOffset ++ image.tableBytes).length = dataOffset := by
    rw [List.length_append, length_zeros, Image.length_tableBytes table, tableOffset_add_capacity]
  have region : (zeros tableOffset ++ image.tableBytes ++ resources.flatten).drop dataOffset =
      resources.flatten := by
    rw [← front, List.drop_left]
  have records := foldlM_recordCopies table limit
  have data : (dataCopies image.records resources).foldlM Copy.run _ = .ok _ :=
    foldlM_dataCopies fits front
  have header := foldlM_headerCopies image.header (image.tableBytes ++ resources.flatten)
  rw [← List.append_assoc] at records
  rw [← List.append_assoc (zeros _), ← List.append_assoc (image.header.toBytes ++ _)] at header
  have checksum : image.checksum = Checksum.ofBytes resources.flatten := rfl
  simp only [Image.header, checksum] at header
  simp only [fill, Cursor.at, extent_ofNat fits, address_of_lt limit, records, data, region,
    header, bind, Except.bind]
  rfl

/-- Assembling in place never goes wrong, and it gives what assembling gives. -/
theorem assembleAt_eq (resources : List Bytes) :
    assembleAt resources = .ok ((assemble resources).map fun image =>
      ⟨image.records, image.checksum, image.toBytes⟩) := by
  by_cases full : capacity < resources.length
  · rw [assembleAt, if_pos full, assemble_of_lt full]
    rfl
  · have placed := foldlM_push { records := [], cursor := .start } resources
    rw [assembleAt, if_neg full]
    cases assembled : assemble resources with
    | error cause =>
        rw [assemble_of_le (Nat.le_of_not_lt full)] at assembled
        have failed : placeAll .start resources = .error cause :=
          Outcome.map_eq_error.mp assembled
        rw [failed] at placed
        rw [Outcome.map_eq_error.mp placed]
        rfl
    | ok image =>
        obtain ⟨room, fits, rfl⟩ := assemble_eq_ok_iff.mp assembled
        have reach : 0 + resources.flatten.length ≤ offsetLimit := by rwa [Nat.zero_add]
        have pushed := foldlM_push_at [] 0 0 reach
        rw [Nat.zero_add, Nat.zero_add, List.nil_append] at pushed
        have start : Cursor.start = .at 0 0 := rfl
        rw [start, pushed]
        simp only [fill_laidOut room fits]
        rfl

/-- The table of a list of resources, number by number. -/
theorem flatMap_laidOut (position start : Nat) (resources : List Bytes) :
    (laidOut position start resources).flatMap Record.toBytes =
      (resources.mapIdx fun i resource =>
        Word.littleEndian (.ofNat (position + i + 1)) ++
          Word.littleEndian (.ofNat (start + ((resources.take i).map List.length).sum)) ++
          Word.littleEndian (.ofNat resource.length) ++
          Word.littleEndian (Checksum.ofBytes resource)).flatten := by
  induction resources generalizing position start with
  | nil => rfl
  | cons resource rest ih =>
      rw [laidOut, List.flatMap_cons, ih, List.mapIdx_cons, List.flatten_cons]
      simp only [List.take_succ_cons, List.map_cons, List.sum_cons, Nat.add_assoc, Nat.add_comm 1]
      rfl

/-- The file of resources that are laid out, number by number. -/
theorem toBytes_laidOut {resources : List Bytes} (room : resources.length ≤ capacity) :
    Image.toBytes ⟨laidOut 0 0 resources, resources.flatten⟩ =
      Word.littleEndian (.ofNat resources.length) ++
        Word.littleEndian (Checksum.ofBytes resources.flatten) ++ [0, 0, 0, 0] ++
        (resources.mapIdx fun i resource =>
          Word.littleEndian (.ofNat (i + 1)) ++
            Word.littleEndian (.ofNat ((resources.take i).map List.length).sum) ++
            Word.littleEndian (.ofNat resource.length) ++
            Word.littleEndian (Checksum.ofBytes resource)).flatten ++
        List.replicate (0x200C - (0xC + 16 * resources.length)) 0 ++ resources.flatten := by
  have records := flatMap_laidOut 0 0 resources
  have unused : (capacity - resources.length) * recordSize =
      0x200C - (0xC + 16 * resources.length) := by
    rw [capacity_eq] at room ⊢
    rw [recordSize]
    omega
  simp only [Nat.zero_add] at records
  rw [Image.toBytes, Image.tableBytes, length_laidOut, unused, records]
  simp only [Image.header, Image.checksum, Header.toBytes, length_laidOut, List.append_assoc]

section Regions

variable {copy : Copy}

theorem within_headerCopies {header : Header} (member : copy ∈ headerCopies header) :
    copy.Within 0 8 := by
  have listed : copy ∈ Copy.sideBySide 0
      [Word.littleEndian header.count, Word.littleEndian header.checksum] := member
  exact Copy.within_of_mem_sideBySide listed

theorem within_recordCopies {records : List Record} (member : copy ∈ recordCopies records) :
    copy.Within tableOffset (tableOffset + recordSize * records.length) := by
  rw [recordCopies_eq] at member
  rw [← length_flatten_toBytes]
  exact Copy.within_of_mem_sideBySide member

theorem within_dataCopies {resources : List Bytes}
    (fits : resources.flatten.length ≤ offsetLimit)
    (member : copy ∈ dataCopies (laidOut 0 0 resources) resources) :
    copy.Within dataOffset (dataOffset + resources.flatten.length) := by
  rw [dataCopies_eq fits] at member
  exact Copy.within_of_mem_sideBySide member

end Regions

/-- No two copies meet, since no two in a region do and the regions do not. -/
theorem pairwise_copies (header : Header) {resources : List Bytes}
    (room : resources.length ≤ capacity) (fits : resources.flatten.length ≤ offsetLimit) :
    (headerCopies header ++ (recordCopies (laidOut 0 0 resources) ++
      dataCopies (laidOut 0 0 resources) resources)).Pairwise Copy.Before := by
  have limit : tableOffset + recordSize * (laidOut 0 0 resources).length ≤ dataOffset := by
    rw [length_laidOut, ← tableOffset_add_capacity, Nat.mul_comm recordSize]
    exact Nat.add_le_add_left (Nat.mul_le_mul_right _ room) _
  have first : (headerCopies header).Pairwise Copy.Before :=
    Copy.pairwise_sideBySide 0 [Word.littleEndian header.count, Word.littleEndian header.checksum]
  have second : (recordCopies (laidOut 0 0 resources)).Pairwise Copy.Before := by
    rw [recordCopies_eq]
    exact Copy.pairwise_sideBySide _ _
  have third : (dataCopies (laidOut 0 0 resources) resources).Pairwise Copy.Before := by
    rw [dataCopies_eq fits]
    exact Copy.pairwise_sideBySide _ _
  have rest : ∀ copy ∈ recordCopies (laidOut 0 0 resources) ++
      dataCopies (laidOut 0 0 resources) resources,
        copy.Within tableOffset (dataOffset + resources.flatten.length) := by
    intro copy member
    rcases List.mem_append.mp member with record | piece
    · exact (within_recordCopies record).mono (Nat.le_refl _)
        (Nat.le_trans limit (Nat.le_add_right _ _))
    · exact (within_dataCopies fits piece).mono (by decide) (Nat.le_refl _)
  exact Copy.pairwise_append first
    (Copy.pairwise_append second third (fun _ => within_recordCopies)
      (fun _ => within_dataCopies fits) limit)
    (fun _ => within_headerCopies) rest (by decide)

/-- The file of assembled resources, byte by byte, and the copies that make it. No number in
it is too great for its four bytes, and no two copies meet. -/
theorem assembled_file_is_exact (resources : List Bytes) (image : Image)
    (assembled : assemble resources = .ok image) :
    let total := (resources.map List.length).sum
    resources.length ≤ 512 ∧ total < 2 ^ 31 ∧
    image.toBytes =
      Word.littleEndian (.ofNat resources.length) ++
        Word.littleEndian (Checksum.ofBytes resources.flatten) ++ [0, 0, 0, 0] ++
        (resources.mapIdx fun i resource =>
          Word.littleEndian (.ofNat (i + 1)) ++
            Word.littleEndian (.ofNat ((resources.take i).map List.length).sum) ++
            Word.littleEndian (.ofNat resource.length) ++
            Word.littleEndian (Checksum.ofBytes resource)).flatten ++
        List.replicate (0x200C - (0xC + 16 * resources.length)) 0 ++ resources.flatten ∧
    image.toBytes.length = 0x200C + total ∧
    assembleAt resources = .ok (.ok ⟨image.records, image.checksum, image.toBytes⟩) ∧
    dataCopies image.records resources = Copy.sideBySide 0x200C resources ∧
    (∀ copy ∈ headerCopies image.header, copy.Within 0 8) ∧
    (∀ copy ∈ recordCopies image.records, copy.Within 0xC (0xC + 16 * resources.length)) ∧
    (∀ copy ∈ dataCopies image.records resources, copy.Within 0x200C image.toBytes.length) ∧
    (headerCopies image.header ++ (recordCopies image.records ++
      dataCopies image.records resources)).Pairwise Copy.Before := by
  intro total
  have inPlace := assembleAt_eq resources
  rw [assembled] at inPlace
  obtain ⟨room, fits, rfl⟩ := assemble_eq_ok_iff.mp assembled
  have size : resources.flatten.length = total := List.length_flatten
  have table : (laidOut 0 0 resources).length ≤ capacity := by rwa [length_laidOut]
  have length : (Image.toBytes ⟨laidOut 0 0 resources, resources.flatten⟩).length =
      dataOffset + resources.flatten.length := Image.length_toBytes table
  refine ⟨room, ?_, toBytes_laidOut room, ?_, inPlace, dataCopies_eq fits, ?_, ?_, ?_,
    pairwise_copies _ room fits⟩
  · rw [← size]
    exact Nat.lt_succ_of_le fits
  · rw [length, size]
    rfl
  · intro copy member
    exact within_headerCopies member
  · intro copy member
    rw [← length_laidOut 0 0 resources]
    exact within_recordCopies member
  · intro copy member
    rw [length]
    exact within_dataCopies fits member

/-- Three resources, the second one empty. -/
theorem three_resources_side_by_side :
    ∃ image, assemble [[1, 2], [], [3]] = .ok image ∧ image.toBytes.length = 0x200F ∧
      image.toBytes.take 4 = [3, 0, 0, 0] ∧ image.toBytes.drop 0x200C = [1, 2, 3] ∧
      dataCopies image.records [[1, 2], [], [3]] =
        [⟨0x200C, [1, 2]⟩, ⟨0x200E, []⟩, ⟨0x200E, [3]⟩] ∧
      assembleAt [[1, 2], [], [3]] =
        .ok (.ok ⟨image.records, image.checksum, image.toBytes⟩) := by
  have assembled : assemble [[1, 2], [], [3]] = .ok _ :=
    assemble_eq_ok_iff.mpr ⟨by decide, by decide, rfl⟩
  obtain ⟨-, -, bytes, length, inPlace, data, -⟩ := assembled_file_is_exact _ _ assembled
  refine ⟨_, assembled, length, ?_, ?_, data, inPlace⟩
  · rw [bytes]
    rfl
  · exact Image.drop_dataOffset (by decide)

end ResourcePack.Pack
