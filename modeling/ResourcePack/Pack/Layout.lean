import ResourcePack.Bytes

/-!
# The layout of a pack

A pack starts with a header of twelve bytes: the number of records, the checksum of the
data and four bytes without meaning. A table of 512 slots follows, and then the data.
Every number is little-endian.

    0x0000  count  checksum  (unused)
    0x000C  records of 16 bytes: index  offset  size  checksum
    0x200C  data
-/

namespace ResourcePack

namespace Pack

def tableOffset : Nat := 0x0C

/-- Where the data starts. The offsets in records are counted from here. -/
def dataOffset : Nat := 0x200C

def recordSize : Nat := 16

/-- The number of records that fit before the data. -/
def capacity : Nat := (dataOffset - tableOffset) / recordSize

theorem capacity_eq : capacity = 512 := rfl

theorem tableOffset_add_capacity : tableOffset + capacity * recordSize = dataOffset := rfl

structure Header where
  count : UInt32
  /-- The checksum of the data; the table is not part of it. -/
  checksum : UInt32
  deriving DecidableEq, Repr

namespace Header

def toBytes (header : Header) : Bytes :=
  Word.littleEndian header.count ++ Word.littleEndian header.checksum

/-- The header of a byte string that is long enough to have one. -/
def ofBytes? (data : Bytes) : Option Header := do
  let (count, rest) ← Word.takeLittleEndian? data
  let (checksum, _) ← Word.takeLittleEndian? rest
  return { count, checksum }

/-- Replace the header of a byte string and keep what follows it. -/
def overwrite (header : Header) (data : Bytes) : Bytes :=
  header.toBytes ++ data.drop header.toBytes.length

@[simp] theorem length_toBytes (header : Header) : header.toBytes.length = 8 := rfl

@[simp] theorem ofBytes?_append (header : Header) (rest : Bytes) :
    ofBytes? (header.toBytes ++ rest) = some header := by
  simp [ofBytes?, toBytes]

end Header

/-- One slot of the table. The numbers are signed and may be anything in a pack that
came from elsewhere. -/
structure Record where
  index : Int32
  offset : Int32
  size : Int32
  checksum : UInt32
  deriving DecidableEq, Repr

namespace Record

def toBytes (record : Record) : Bytes :=
  Word.littleEndian record.index.toUInt32 ++ Word.littleEndian record.offset.toUInt32 ++
    Word.littleEndian record.size.toUInt32 ++ Word.littleEndian record.checksum

/-- The record a byte string starts with and the bytes after it. -/
def take? (data : Bytes) : Option (Record × Bytes) := do
  let (index, rest) ← Word.takeLittleEndian? data
  let (offset, rest) ← Word.takeLittleEndian? rest
  let (size, rest) ← Word.takeLittleEndian? rest
  let (checksum, rest) ← Word.takeLittleEndian? rest
  return ({ index := index.toInt32, offset := offset.toInt32, size := size.toInt32, checksum },
    rest)

def position (slot : Nat) : Nat :=
  tableOffset + slot * recordSize

@[simp] theorem length_toBytes (record : Record) : record.toBytes.length = recordSize := rfl

@[simp] theorem take?_append (record : Record) (rest : Bytes) :
    take? (record.toBytes ++ rest) = some (record, rest) := by
  simp [take?, toBytes]

end Record

end Pack

end ResourcePack
