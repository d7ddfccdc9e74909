import ResourcePack.Bytes

/-!
# Pixel formats of PNG files

The first chunk of a file gives the size of the picture, the kind of its pixels, the
number of bits in each sample and whether the rows are interlaced. Only some numbers of
bits go with each kind.
-/

namespace ResourcePack

namespace Png

/-- What the samples of a pixel are. -/
inductive PixelKind where
  | grey
  | rgb
  | indexed
  | greyAlpha
  | rgba
  deriving DecidableEq, Repr

namespace PixelKind

/-- The number a file has for a kind. -/
def code : PixelKind → UInt8
  | .grey => 0
  | .rgb => 2
  | .indexed => 3
  | .greyAlpha => 4
  | .rgba => 6

def channels : PixelKind → Nat
  | .grey | .indexed => 1
  | .rgb => 3
  | .greyAlpha => 2
  | .rgba => 4

/-- The numbers of bits that a sample may have. -/
def depths : PixelKind → List Nat
  | .grey => [1, 2, 4, 8, 16]
  | .indexed => [1, 2, 4, 8]
  | .rgb | .greyAlpha | .rgba => [8, 16]

/-- The kind a file means by a number. -/
def ofCode? (code : UInt8) : Option PixelKind :=
  [grey, rgb, indexed, greyAlpha, rgba].find? (·.code = code)

@[simp] theorem ofCode?_code (kind : PixelKind) : ofCode? kind.code = some kind := by
  cases kind <;> rfl

end PixelKind

structure Header where
  width : UInt32
  height : UInt32
  kind : PixelKind
  /-- The number of bits in a sample. -/
  bits : Nat
  interlaced : Bool
  deriving DecidableEq, Repr

namespace Header

def pixelBits (header : Header) : Nat := header.kind.channels * header.bits

/-- The number of bytes in a row of pixels, the last one filled up. -/
def rowBytes (header : Header) (width : Nat) : Nat := (width * header.pixelBits + 7) / 8

def toBytes (header : Header) : Bytes :=
  Word.bigEndian header.width ++ Word.bigEndian header.height ++
    [UInt8.ofNat header.bits, header.kind.code, 0, 0, if header.interlaced then 1 else 0]

/-- Read a header. There is one method of compression and one of filtering, a picture has
at least one pixel, and the kind of its pixels has to allow the number of bits. -/
def ofBytes? (data : Bytes) : Option Header := do
  let (width, rest) ← Word.takeBigEndian? data
  let (height, rest) ← Word.takeBigEndian? rest
  match rest with
  | [bits, code, 0, 0, interlace] =>
    let kind ← PixelKind.ofCode? code
    if width = 0 || height = 0 || bits.toNat ∉ kind.depths || 1 < interlace then none
    else return { width, height, kind, bits := bits.toNat, interlaced := interlace = 1 }
  | _ => none

end Header

end Png

end ResourcePack
