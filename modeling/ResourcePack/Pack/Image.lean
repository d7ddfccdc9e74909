import ResourcePack.Checksum
import ResourcePack.Pack.Error
import ResourcePack.Pack.Layout

/-!
# Making a pack

`assemble` gives every resource the next index, from 1 on, and the place right after the
data of those before it. A list is refused if it has more resources than the table has
slots, or more data than a signed 32-bit offset can address. `Image.toBytes` is the file.
-/

namespace ResourcePack

namespace Pack

/-- A pack that is laid out: its table and its data. -/
structure Image where
  records : List Record
  data : Bytes
  deriving DecidableEq, Repr

namespace Image

def checksum (image : Image) : UInt32 :=
  Checksum.ofBytes image.data

def header (image : Image) : Header where
  count := .ofNat image.records.length
  checksum := image.checksum

/-- The table with its unused slots, all zero. -/
def tableBytes (image : Image) : Bytes :=
  image.records.flatMap Record.toBytes ++
    List.replicate ((capacity - image.records.length) * recordSize) 0

def toBytes (image : Image) : Bytes :=
  image.header.toBytes ++ [0, 0, 0, 0] ++ image.tableBytes ++ image.data

end Image

/-- The greatest offset a record can hold. -/
def offsetLimit : Nat := 0x7FFFFFFF

/-- The next index and the next free offset while resources are laid out. -/
structure Cursor where
  index : Int32
  offset : Int32
  deriving DecidableEq, Repr

namespace Cursor

def start : Cursor where
  index := 1
  offset := 0

/-- The record of the next resource and the cursor after it, unless its data would pass
the limit. -/
def place (cursor : Cursor) (resource : Bytes) : Except Error (Record × Cursor) :=
  if offsetLimit < resource.length then .error (.tooLarge resource.length)
  else
    let bound := cursor.offset.toNatClampNeg + resource.length
    if offsetLimit < bound then .error (.tooLarge bound)
    else
      let size := Int32.ofNat resource.length
      .ok ({ index := cursor.index, offset := cursor.offset, size,
             checksum := Checksum.ofBytes resource },
        { index := cursor.index + 1, offset := cursor.offset + size })

end Cursor

/-- The records of resources placed one after the other. -/
def placeAll (cursor : Cursor) : List Bytes → Except Error (List Record)
  | [] => .ok []
  | resource :: rest => do
    let (record, cursor) ← cursor.place resource
    return record :: (← placeAll cursor rest)

/-- Lay out resources. The one at position `n` gets index `n + 1`. -/
def assemble (resources : List Bytes) : Except Error Image := do
  if capacity < resources.length then
    throw (.tableFull resources.length capacity)
  return { records := ← placeAll .start resources, data := resources.flatten }

end Pack

end ResourcePack
