import ResourcePack.Bytes
import ResourcePack.Picture.Color
import ResourcePack.Picture.Error

/-!
# Rasters

A raster is a picture before reduction: as many pixels as its width and height ask for,
row by row from the top.
-/

namespace ResourcePack

structure Raster where
  width : UInt32
  height : UInt32
  pixels : List Color
  length_pixels : pixels.length = width.toNat * height.toNat

namespace Raster

/-- A raster of the given pixels, refused if their number is not what the size asks
for. -/
def ofPixels (width height : UInt32) (pixels : List Color) : Except Picture.Error Raster :=
  if h : pixels.length = width.toNat * height.toNat then .ok ⟨width, height, pixels, h⟩
  else .error (.rasterSize width height pixels.length)

/-- Group bytes into pixels. Up to three bytes that make no pixel are left out. -/
def colors (data : Bytes) : List Color :=
  go [] data
where
  /-- The pixels so far are in `done`, the last one first. -/
  go (done : List Color) : Bytes → List Color
    | r :: g :: b :: a :: rest => go (⟨r, g, b, a⟩ :: done) rest
    | _ => done.reverse

/-- A raster of pixels stored as four bytes each. -/
def ofBytes (width height : UInt32) (data : Bytes) : Except Picture.Error Raster :=
  ofPixels width height (colors data)

def filled (width height : UInt32) (color : Color) : Raster where
  width := width
  height := height
  pixels := List.replicate (width.toNat * height.toNat) color
  length_pixels := List.length_replicate

def toBytes (raster : Raster) : Bytes :=
  raster.pixels.flatMap Color.toList

end Raster

end ResourcePack
