import ResourcePack.Command.Run
import ResourcePack.Proofs.Files.Running
import ResourcePack.Proofs.Pack.Opening
import ResourcePack.Proofs.Pack.RoundTrip

/-!
# What a listing marks

A line of a listing shows the numbers of one record. Its mark comes from looking the index
of the record up again, and what is found then is the first record with that index. So the
mark compares the data of the first record with the checksum of the one on the line. These
are the same record wherever an index is stored once; below a record with the same index,
the mark says nothing about the place that the line shows.
-/

namespace ResourcePack

namespace Pack

/-- The first record of a table that stores an index. -/
def FirstWith (records : List Record) (index : Int32) (record : Record) : Prop :=
  ∃ before after, records = before ++ record :: after ∧
    (∀ other ∈ before, other.index ≠ index) ∧ record.index = index

theorem exists_firstWith {records : List Record} {record : Record} (member : record ∈ records) :
    ∃ first, FirstWith records record.index first := by
  have some : (records.find? (·.index = record.index)).isSome = true :=
    List.find?_isSome.mpr ⟨record, member, by simp⟩
  obtain ⟨first, found⟩ := Option.isSome_iff_exists.mp some
  obtain ⟨same, before, after, table, others⟩ := List.find?_eq_some_iff_append.mp found
  exact ⟨first, before, after, table, by simpa using others, by simpa using same⟩

/-- With an index that no other record stores, a record is the first one. -/
theorem firstWith_self {records : List Record} (distinct : (records.map (·.index)).Nodup)
    {record : Record} (member : record ∈ records) : FirstWith records record.index record := by
  obtain ⟨before, after, rfl⟩ := List.append_of_mem member
  refine ⟨before, after, rfl, ?_, rfl⟩
  intro other earlier same
  rw [List.map_append, List.nodup_append] at distinct
  exact distinct.2.2 _ (List.mem_map_of_mem earlier) _ (by simp) same

namespace Archive

/-- The file has all bytes at the place of a record, and this is their checksum. -/
structure HasChecksum (archive : Archive) (place : Record) (checksum : UInt32) : Prop where
  within : archive.Within place
  checksum : Checksum.ofBytes ((archive.bytes.drop (0x200C + place.offset.toInt.toNat)).take
    place.size.toInt.toNat) = checksum

theorem not_hasChecksum_of_negative {archive : Archive} {place : Record} {checksum : UInt32}
    (negative : place.offset.toInt < 0) : ¬ archive.HasChecksum place checksum :=
  fun verified => Int.not_lt.mpr verified.within.1 negative

end Archive

end Pack

namespace Command

open Pack

/-- A mark tells whether something is so. -/
structure Marks (mark : String) (holds : Prop) : Prop where
  ok : mark = "ok" ↔ holds
  mismatch : mark = "mismatch" ↔ ¬ holds

theorem marks_verdict {passed : Bool} {holds : Prop} (decides : passed = true ↔ holds) :
    Marks (verdict passed) holds := by
  rw [← decides]
  cases passed with
  | false => exact ⟨by decide, by decide⟩
  | true => exact ⟨by decide, by decide⟩

/-- What a mark stands for: the data of the first record with the index has the checksum of
the record on the line. -/
theorem recordPasses_iff {archive : Archive} {first record : Record}
    (leads : FirstWith archive.records record.index first) :
    recordPasses archive record = true ↔ archive.HasChecksum first record.checksum := by
  obtain ⟨before, after, table, others, same⟩ := leads
  have found := Archive.extract_of_first table (same ▸ others)
  rw [same] at found
  rw [recordPasses, found]
  by_cases within : archive.Within first
  · rw [Archive.slice?_of_within within]
    constructor
    · intro equal
      exact ⟨within, by simpa using equal⟩
    · intro verified
      simpa using verified.checksum
  · rw [Archive.slice?_of_not_within within]
    exact iff_of_false Bool.false_ne_true fun verified => within verified.within

variable {fs : FileSystem} {pack : Path} {content : Bytes} {archive : Archive}

/-- The command prints the listing of the pack in the file. -/
theorem run_list (there : fs.read pack = .ok content)
    (opened : Archive.ofBytes pack content = .ok archive) (tool : Option Path) (json : Bool) :
    fs.run (run tool json (.list pack)) = (.ok (listText json archive), fs) := by
  have read : fs.run (openPack pack) = (.ok archive, fs) := by
    simp only [openPack, FileSystem.run_read, there, opened]
    rfl
  exact FileSystem.run_bind_eq_ok.mpr ⟨_, _, read, rfl⟩

/-- The line of a listing on the whole pack. -/
def heading (archive : Archive) (mark : String) : String :=
  s!"{archive.path.text}: {archive.header.count} resources, crc {hex archive.header.checksum} " ++
    s!"({mark})\n"

/-- The line of a listing on a record. -/
def markedLine (record : Record) (mark : String) : String :=
  columns (toString record.index) (toString record.offset) (toString record.size)
    s!"{hex record.checksum} {mark}"

theorem listText_eq (archive : Archive) :
    listText false archive =
      heading archive (verdict (archive.header.checksum = Checksum.ofBytes archive.data)) ++
        (if archive.records.isEmpty then "" else columns "INDEX" "OFFSET" "SIZE" "CRC") ++
        String.join (archive.records.map fun record =>
          markedLine record (verdict (recordPasses archive record))) := by
  have lines : (fun record => markedLine record (verdict (recordPasses archive record))) =
      recordLine archive := rfl
  rw [listText, heading, lines]
  cases archive.records with
  | nil => simp [String.append_assoc]
  | cons record rest => simp [String.append_assoc]

/-- A record with the index one and the checksum of the bytes. -/
def entry (offset size : Int32) (bytes : Bytes) : Record :=
  ⟨1, offset, size, Checksum.ofBytes bytes⟩

theorem checksum_entry (offset size : Int32) (bytes : Bytes) :
    (entry offset size bytes).checksum = Checksum.ofBytes bytes := rfl

/-- Three records with one index. The second one is intact, and the third one points to a
place before the data, but has the checksum of the first. -/
def repeatedIndex : Image where
  records := [entry 0 1 [0x41], entry 1 1 [0x42], entry (-5) 99 [0x41]]
  data := [0x41, 0x42]

/-- The archive that the bytes of these records open as. -/
def repeatedIndexAt (path : Path) : Archive :=
  ⟨path, repeatedIndex.header, repeatedIndex.records, repeatedIndex.toBytes⟩

theorem ofBytes_repeatedIndex (path : Path) :
    Archive.ofBytes path repeatedIndex.toBytes = .ok (repeatedIndexAt path) :=
  Image.ofBytes_toBytes path (by decide)

theorem records_repeatedIndexAt (path : Path) : (repeatedIndexAt path).records =
    [entry 0 1 [0x41], entry 1 1 [0x42], entry (-5) 99 [0x41]] := rfl

theorem header_repeatedIndexAt (path : Path) :
    (repeatedIndexAt path).header = repeatedIndex.header := rfl

theorem data_repeatedIndexAt (path : Path) : (repeatedIndexAt path).data = repeatedIndex.data :=
  Image.drop_dataOffset (by decide)

/-- A record of one byte within the data has the checksum of this byte. -/
theorem hasChecksum_repeatedIndex (path : Path) (offset : Int32) (start : Nat) (byte : UInt8)
    (starts : offset.toInt = start) (there : start < 2)
    (stored : (repeatedIndex.data.drop start).take 1 = [byte]) :
    (repeatedIndexAt path).HasChecksum (entry offset 1 [byte]) (Checksum.ofBytes [byte]) := by
  have data : repeatedIndex.toBytes.drop 0x200C = repeatedIndex.data :=
    Image.drop_dataOffset (by decide)
  have length : repeatedIndex.toBytes.length = 0x200C + 2 := Image.length_toBytes (by decide)
  have single : (1 : Int32).toInt = 1 := by decide
  constructor
  · simp only [Archive.Within, entry, repeatedIndexAt, starts, single, length]
    omega
  · simp only [entry, repeatedIndexAt, starts, single, Int.toNat_natCast]
    rw [← List.drop_drop, data]
    exact congrArg Checksum.ofBytes stored

/-- All three lines are marked by the byte of the first record. -/
theorem recordPasses_repeatedIndex (path : Path) (offset size : Int32) (bytes : Bytes) :
    recordPasses (repeatedIndexAt path) (entry offset size bytes) =
      decide (Checksum.ofBytes [0x41] = Checksum.ofBytes bytes) := by
  have first : FirstWith (repeatedIndexAt path).records (entry offset size bytes).index
      (entry 0 1 [0x41]) := ⟨[], _, rfl, by simp, rfl⟩
  have found := hasChecksum_repeatedIndex path 0 0 0x41 (by decide) (by decide) rfl
  rw [Bool.eq_iff_iff, recordPasses_iff first, decide_eq_true_eq, checksum_entry]
  constructor
  · intro verified
    exact found.checksum.symm.trans verified.checksum
  · intro same
    exact ⟨found.within, found.checksum.trans same⟩

/-- A listing as it is printed: one line on the whole pack, and one for each record under a
line of titles, if there are records. The marks go by the first record with an index. -/
theorem listing_marks_by_first_records (there : fs.read pack = .ok content)
    (opened : Archive.ofBytes pack content = .ok archive) (tool : Option Path) :
    ∃ (mark : String) (marks : List String),
      fs.run (run tool false (.list pack)) =
        (.ok (heading archive mark ++
          (if archive.records.isEmpty then "" else columns "INDEX" "OFFSET" "SIZE" "CRC") ++
          String.join (List.zipWith markedLine archive.records marks)), fs) ∧
      Marks mark (archive.header.checksum = Checksum.ofBytes (content.drop 0x200C)) ∧
      List.Forall₂ (fun record mark =>
        (∃ first, FirstWith archive.records record.index first ∧
          Marks mark (archive.HasChecksum first record.checksum)) ∧
        ((archive.records.map (·.index)).Nodup →
          Marks mark (archive.HasChecksum record record.checksum)))
        archive.records marks := by
  have reads := Archive.reads_of_ofBytes opened
  have data : archive.data = content.drop 0x200C := by
    rw [Archive.data, reads.content, dataOffset]
  refine ⟨verdict (archive.header.checksum = Checksum.ofBytes archive.data),
    archive.records.map fun record => verdict (recordPasses archive record), ?_,
    marks_verdict (by simp [data]), ?_⟩
  · rw [run_list there opened, listText_eq, List.zipWith_map_right, List.zipWith_self]
  · rw [List.forall₂_map_right_iff, List.forall₂_same]
    intro record member
    constructor
    · obtain ⟨first, leads⟩ := exists_firstWith member
      exact ⟨first, leads, marks_verdict (recordPasses_iff leads)⟩
    · intro distinct
      exact marks_verdict (recordPasses_iff (firstWith_self distinct member))

/-- A listing of three records with one index. -/
theorem listing_of_repeated_index :
    ∃ (fs : FileSystem) (mark : String) (marks : List String),
      fs.read ⟨"p.pbpack"⟩ = .ok repeatedIndex.toBytes ∧
      Archive.ofBytes ⟨"p.pbpack"⟩ repeatedIndex.toBytes = .ok (repeatedIndexAt ⟨"p.pbpack"⟩) ∧
      fs.run (run none false (.list ⟨"p.pbpack"⟩)) =
        (.ok (heading (repeatedIndexAt ⟨"p.pbpack"⟩) mark ++
          columns "INDEX" "OFFSET" "SIZE" "CRC" ++
          String.join (List.zipWith markedLine
            [entry 0 1 [0x41], entry 1 1 [0x42], entry (-5) 99 [0x41]] marks)), fs) ∧
      marks.length = 3 := by
  have there : FileSystem.read ⟨[(["p.pbpack"], .file repeatedIndex.toBytes)], []⟩ ⟨"p.pbpack"⟩ =
      .ok repeatedIndex.toBytes := rfl
  obtain ⟨mark, marks, printed, -, each⟩ :=
    listing_marks_by_first_records there (ofBytes_repeatedIndex _) none
  exact ⟨_, mark, marks, there, ofBytes_repeatedIndex _, printed, each.length_eq.symm⟩

/-- Below a record with the same index, the mark is wrong in both directions. -/
theorem repeated_index_misleads :
    ∃ (archive : Archive) (first second third : Record),
      Archive.ofBytes ⟨"p.pbpack"⟩ repeatedIndex.toBytes = .ok archive ∧
      archive.records = [first, second, third] ∧
      listText false archive = heading archive "ok" ++ columns "INDEX" "OFFSET" "SIZE" "CRC" ++
        String.join [markedLine first "ok", markedLine second "mismatch", markedLine third "ok"] ∧
      archive.HasChecksum second second.checksum ∧
      ¬ archive.HasChecksum third third.checksum := by
  have differ : Checksum.ofBytes [0x41] ≠ Checksum.ofBytes [0x42] := by decide +kernel
  refine ⟨_, _, _, _, ofBytes_repeatedIndex _, records_repeatedIndexAt _, ?_, ?_, ?_⟩
  · rw [listText_eq, header_repeatedIndexAt, data_repeatedIndexAt, records_repeatedIndexAt]
    simp only [Image.header, Image.checksum]
    simp [recordPasses_repeatedIndex, differ, verdict]
  · rw [checksum_entry]
    exact hasChecksum_repeatedIndex _ 1 1 0x42 (by decide) (by decide) rfl
  · refine Archive.not_hasChecksum_of_negative ?_
    change (-5 : Int32).toInt < 0
    decide

end Command

end ResourcePack
