import ResourcePack.Pack.Error
import ResourcePack.Pack.Layout

/-!
# Reading a pack

A pack is opened as a whole: every record the header counts has to be there. Nothing
else is checked, so a record may have any index, point anywhere and carry any checksum.
Whether its data lies in the file is found out when the data is asked for.
-/

namespace ResourcePack

namespace Pack

/-- A pack that is open. The path serves messages only. -/
structure Archive where
  path : Path
  header : Header
  records : List Record
  bytes : Bytes
  deriving DecidableEq, Repr

/-- Read `left` records from `data`, of which the first one is in slot `slot` of
`count`; on failure give the first slot that is missing. -/
def takeRecords (data : Bytes) (slot : Nat) : (left : Nat) → Except Nat (List Record)
  | 0 => .ok []
  | left + 1 =>
    match Record.take? data with
    | none => .error slot
    | some (record, rest) => (takeRecords rest (slot + 1) left).map (record :: ·)

namespace Archive

def ofBytes (path : Path) (bytes : Bytes) : Except Error Archive :=
  match Header.ofBytes? bytes with
  | none => .error (.truncated path (missingHeader bytes.length))
  | some header =>
    match takeRecords (bytes.drop tableOffset) 0 header.count.toNat with
    | .error slot => .error (.truncated path (missingRecord slot header.count.toNat))
    | .ok records => .ok { path, header, records, bytes }

/-- Everything after the table. A file may end before that. -/
def data (archive : Archive) : Bytes :=
  archive.bytes.drop dataOffset

/-- The first record that stores `index`. The table may be in any order. -/
def find (archive : Archive) (index : Int32) : Except Error Record :=
  match archive.records.find? (·.index = index) with
  | some record => .ok record
  | none => .error (.notFound archive.path index)

/-- The bytes a record points to, if the file has all of them. -/
def slice? (archive : Archive) (record : Record) : Option Bytes :=
  if record.offset < 0 ∨ record.size < 0 then none
  else
    let start := dataOffset + record.offset.toNatClampNeg
    let size := record.size.toNatClampNeg
    if archive.bytes.length < start + size then none
    else some ((archive.bytes.drop start).take size)

/-- The data of the resource stored under `index`. -/
def extract (archive : Archive) (index : Int32) : Except Error Bytes := do
  let record ← archive.find index
  match archive.slice? record with
  | some data => .ok data
  | none =>
    .error (.truncated archive.path (missingData index record.offset record.size))

end Archive

end Pack

end ResourcePack
