import ResourcePack.Bytes

/-!
# Compressed data without compression

Any byte string can be written as stored blocks. A block holds at most 65535 bytes, and
only the last one says so.
-/

namespace ResourcePack

namespace Deflate

def storedLimit : Nat := 65535

def storedBlock (last : Bool) (data : Bytes) : Bytes :=
  let low := UInt8.ofNat data.length
  let high := UInt8.ofNat (data.length / 256)
  (if last then 1 else 0) :: low :: high :: ~~~low :: ~~~high :: data

/-- The blocks before the last one and the data of that one; `count` bounds their
number. -/
def storedBlocks : (count : Nat) → Bytes → Bytes
  | 0, data => storedBlock true data
  | count + 1, data =>
    if data.length ≤ storedLimit then storedBlock true data
    else storedBlock false (data.take storedLimit) ++
      storedBlocks count (data.drop storedLimit)

/-- Stored blocks for a byte string. -/
def store (data : Bytes) : Bytes :=
  storedBlocks (data.length / storedLimit) data

end Deflate

end ResourcePack
