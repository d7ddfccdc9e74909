import ResourcePack.Picture.Quantized
import ResourcePack.Png.Content

/-!
# The PNG file of a quantized picture

Palette indices and grey levels are stored at the picture's own depth. The transparency
chunk holds the opacities of a palette that has them, or the grey level that stands for
full transparency.
-/

namespace ResourcePack

namespace Palette

def colorBytes : Palette → Bytes
  | .rgb entries => entries.flatMap fun (r, g, b) => [r, g, b]
  | .rgba entries => entries.flatMap fun c => [c.r, c.g, c.b]

/-- The opacities, where they are stored. -/
def opacityBytes? : Palette → Option Bytes
  | .rgb _ => none
  | .rgba entries => some (entries.map Color.a)

end Palette

namespace Png

namespace Content

/-- The rows of a quantized picture: as many as its height asks for, with 0 for pixels
that are missing. -/
def packedRows (width depth : Nat) : (height : Nat) → List UInt8 → List Bytes
  | 0, _ => []
  | height + 1, pixels =>
    Scanline.pack depth ((width * depth + 7) / 8) (pixels.take width) ::
      packedRows width depth height (pixels.drop width)

/-- What the file of a quantized picture says. A picture has at least one pixel, and one
of eight bits has to have them all. -/
def ofQuantized (picture : Quantized) : Except Picture.Error Content :=
  let width := picture.width.toNat
  let height := picture.height.toNat
  if width = 0 ∨ height = 0 then .error .unencodable
  else if picture.depth = .eight ∧ picture.pixels.length ≠ width * height then
    .error .unencodable
  else
    let indexed := picture.shading.palette?.isSome
    .ok {
      header := {
        width := picture.width
        height := picture.height
        kind := if indexed then .indexed else .grey
        bits := picture.depth.bits
        interlaced := false }
      palette := picture.shading.palette?.map Palette.colorBytes
      transparency :=
        match picture.shading with
        | .grey transparent => transparent.map fun level => [0, level]
        | .indexed palette => palette.opacityBytes?
      grids := [packedRows width picture.depth.bits height picture.pixels] }

end Content

def encode (picture : Quantized) : Except Picture.Error Bytes :=
  (Content.ofQuantized picture).map Content.toBytes

end Png

end ResourcePack
