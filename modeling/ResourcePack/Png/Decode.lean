import ResourcePack.Picture.Raster
import ResourcePack.Png.Content

/-!
# The raster of a PNG file

Every kind of pixel becomes a colour of four bytes. Samples of fewer than eight bits are
stretched to the range from 0 to 255, and those of sixteen are divided by 257 and
rounded. A transparency chunk names one grey or colour, compared sample by sample before
any stretching, or gives each colour of the palette its opacity.
-/

namespace ResourcePack

namespace Png

namespace Content

/-- A sample as a byte. -/
def stretch (bits sample : Nat) : UInt8 :=
  if bits = 16 then UInt8.ofNat ((sample + 128) / 257)
  else UInt8.ofNat (sample * 255 / ((1 <<< bits) - 1))

/-- The samples that a transparency chunk makes transparent. It has two bytes for each
sample, of which the first matters only to samples of sixteen bits. Such samples are
compared with the whole chunk, so none match a longer one; what else a chunk has does not
matter to other samples. -/
def key? (header : Header) (data : Bytes) : Option (List Nat) :=
  let count := header.kind.channels
  if header.bits = 16 then
    if data.length = 2 * count then some (Scanline.pairs data) else none
  else some (((Scanline.pairs data).take count).map (· % 256))

/-- The colours of palette data, with their opacities. Colours beyond the last opacity
are opaque, and so are all if there are more opacities than colours. -/
def paletteColors (palette transparency : Bytes) : List Color :=
  let count := palette.length / 3
  let opacity := if transparency.length ≤ count then transparency else []
  go palette (opacity ++ List.replicate (count - opacity.length) 255)
where
  /-- Pair colours with opacities. -/
  go : Bytes → Bytes → List Color
    | r :: g :: b :: rest, a :: opacity => ⟨r, g, b, a⟩ :: go rest opacity
    | _, _ => []

/-- What it takes to turn samples into colours. -/
structure Meaning where
  kind : PixelKind
  bits : Nat
  /-- The samples that mean full transparency. -/
  key : Option (List Nat)
  colors : Array Color

def meaning (content : Content) : Meaning where
  kind := content.header.kind
  bits := content.header.bits
  key := content.transparency.bind (key? content.header)
  colors :=
    (paletteColors (content.palette.getD []) (content.transparency.getD [])).toArray

namespace Meaning

/-- The opacity of a pixel that has no sample for it. -/
def opacity (meaning : Meaning) (samples : List Nat) : UInt8 :=
  if meaning.key = some samples then 0 else 255

/-- The colour of a pixel. An index that has no colour is black. -/
def color (meaning : Meaning) (samples : List Nat) : Color :=
  let byte := stretch meaning.bits
  match meaning.kind, samples with
  | .grey, [v] => ⟨byte v, byte v, byte v, meaning.opacity [v]⟩
  | .rgb, [r, g, b] => ⟨byte r, byte g, byte b, meaning.opacity [r, g, b]⟩
  | .indexed, [i] => meaning.colors.getD i (.grey 0)
  | .greyAlpha, [v, a] => ⟨byte v, byte v, byte v, byte a⟩
  | .rgba, [r, g, b, a] => ⟨byte r, byte g, byte b, byte a⟩
  | _, _ => .transparent

end Meaning

/-- The first `count` groups of `size` samples. -/
def groups (size : Nat) : (count : Nat) → List Nat → List (List Nat)
  | 0, _ => []
  | count + 1, samples => samples.take size :: groups size count (samples.drop size)

/-- The colours in a row of `width` pixels. -/
def rowColors (meaning : Meaning) (width : Nat) (row : Bytes) : List Color :=
  (groups meaning.kind.channels width (Scanline.unpack meaning.bits row)).map meaning.color

def pixels (content : Content) : List Color :=
  let width := content.header.width.toNat
  let height := content.header.height.toNat
  let meaning := content.meaning
  if content.header.interlaced then
    let blank := Array.replicate (width * height) Color.transparent
    (((passes content.header).zip content.grids).foldl
      (fun picture (pass, rows) =>
        pass.scatter width (rows.map (rowColors meaning (pass.columns width))) picture)
      blank).toList
  else content.grids.flatten.flatMap (rowColors meaning width)

def toRaster (content : Content) : Except Picture.Error Raster :=
  Raster.ofPixels content.header.width content.header.height content.pixels

end Content

def decode (file : Bytes) : Except Picture.Error Raster :=
  match Content.ofBytes? file with
  | some content => content.toRaster
  | none => .error .undecodable

end Png

end ResourcePack
