import ResourcePack.Deflate.Inflate
import ResourcePack.Deflate.Stored

/-!
# The wrapper around compressed data

Two bytes come before compressed data, the method and its settings, and a checksum of
what it stands for comes after it. A reader checks the former. It wants the latter to be
there if the data does not fill the room there is for it, but does not compare it.
-/

namespace ResourcePack

namespace Zlib

/-- The checksum of uncompressed data: two sums modulo 65521, the second one of the
values that the first one takes. -/
def checksum (data : Bytes) : UInt32 :=
  let (a, b) := data.foldl
    (fun (a, b) byte => let a := (a + byte.toNat) % 65521; (a, (b + a) % 65521)) (1, 0)
  UInt32.ofNat (b * 65536 + a)

/-- The number of bytes of the checksum after compressed data. -/
def trailerSize : Nat := 4

/-- Whether two bytes announce compressed data: the method is 8, the window is at most
the largest one, no dictionary is needed and the bytes are a multiple of 31. -/
def isHeader (method settings : UInt8) : Bool :=
  method &&& 0x0F = 8 && method &&& 0xF0 ≤ 0x70 && settings &&& 0x20 = 0 &&
    (256 * method.toNat + settings.toNat) % 31 = 0

/-- The first byte of data that comes in pieces, and the pieces without it. -/
def takeByte? : List Bytes → Option (UInt8 × List Bytes)
  | [] => none
  | [] :: pieces => takeByte? pieces
  | (byte :: piece) :: pieces => some (byte, piece :: pieces)

/-- The first `enough` bytes of the data that was compressed, if there is room for `room`
bytes. Pieces beyond those that they take are left alone. -/
def decompressTo? (enough room : Nat) (pieces : List Bytes) : Option Bytes := do
  let (method, pieces) ← takeByte? pieces
  let (settings, pieces) ← takeByte? pieces
  if isHeader method settings then Deflate.inflateTo? enough room trailerSize pieces else none

/-- Wrap data without making it smaller. -/
def compress (data : Bytes) : Bytes :=
  [0x78, 0x01] ++ Deflate.store data ++ Word.bigEndian (checksum data)

example : isHeader 0x78 0x01 = true := by decide

end Zlib

end ResourcePack
