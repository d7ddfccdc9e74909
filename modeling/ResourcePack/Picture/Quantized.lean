import ResourcePack.Picture.Depth
import ResourcePack.Picture.Raster
import ResourcePack.Picture.Reduction

/-!
# Quantized pictures

A raster is reduced to a device palette, and the distinct colours it then has decide how
it is stored: as grey levels where that takes no more bits than an index into a palette
would, and as palette indices otherwise. Full transparency has a grey level of its own,
one that no opaque pixel uses.
-/

namespace ResourcePack

/-- What a picture is reduced to and how. -/
structure ConvertOptions where
  family : Family
  method : Method
  /-- The depth asked for. It has to be enough. -/
  depth : Option Depth
  deriving DecidableEq, Repr

/-- The colours indices stand for. Opacity is stored where some colour is not opaque. -/
inductive Palette where
  | rgb (entries : List (UInt8 × UInt8 × UInt8))
  | rgba (entries : List Color)
  deriving DecidableEq, Repr

namespace Palette

def size : Palette → Nat
  | .rgb entries => entries.length
  | .rgba entries => entries.length

def colors : Palette → List Color
  | .rgb entries => entries.map fun (r, g, b) => ⟨r, g, b, 255⟩
  | .rgba entries => entries

end Palette

/-- What the pixel values of a quantized picture mean. -/
inductive Shading where
  /-- Grey levels, one of which may stand for full transparency. -/
  | grey (transparent : Option UInt8)
  /-- Positions in a palette. -/
  | indexed (palette : Palette)
  deriving DecidableEq, Repr

namespace Shading

def isGrey : Shading → Bool
  | .grey _ => true
  | .indexed _ => false

/-- The level that stands for full transparency. -/
def transparent? : Shading → Option UInt8
  | .grey level => level
  | .indexed _ => none

def palette? : Shading → Option Palette
  | .grey _ => none
  | .indexed palette => some palette

/-- The shading that separate statements describe. A palette counts only for a picture
that is not declared grey, and a transparent level only without one. -/
def ofParts (grey : Bool) (transparent : Option UInt8) (palette : Option Palette) : Shading :=
  match grey, palette with
  | false, some palette => .indexed palette
  | _, _ => .grey transparent

theorem ofParts_isGrey (shading : Shading) :
    ofParts shading.isGrey shading.transparent? shading.palette? = shading := by
  cases shading <;> rfl

end Shading

/-- A picture ready to be stored: one value for each pixel. -/
structure Quantized where
  width : UInt32
  height : UInt32
  depth : Depth
  shading : Shading
  pixels : List UInt8
  deriving DecidableEq, Repr

/-- The distinct members of a list, in the order in which they first appear. -/
def firstSeen {α : Type} [DecidableEq α] (xs : List α) : List α :=
  xs.foldl (fun seen x => if x ∈ seen then seen else seen ++ [x]) []

/-- What the reduced colours of a raster ask for. -/
structure Analysis where
  /-- The distinct colours, in the order in which they first appear. -/
  colors : List Color
  /-- Whether the picture is best stored as grey levels. -/
  isGrey : Bool
  /-- Whether some pixel is not opaque. -/
  hasAlpha : Bool
  depth : Depth
  deriving DecidableEq, Repr

namespace Analysis

/-- The two grey levels between black and white. -/
def midtones : List Color := [.grey 85, .grey 170]

/-- The depth that grey levels need for these colours: one bit for black and white, two
where a midtone or a third value appears, and four where a midtone comes with more than
four values. -/
def greyDepth (colors : List Color) : Depth :=
  if midtones.any (· ∈ colors) then
    if 5 ≤ colors.length then .four else .two
  else
    if 3 ≤ colors.length then .two else .one

/-- What a list of distinct colours asks for. Grey levels are chosen if every colour is
an opaque grey or fully transparent and they need no more bits than indices. -/
def ofColors (colors : List Color) : Analysis :=
  let depth := Depth.forColors colors.length
  let grey := colors.all fun c => c.isOpaqueGrey || c = .transparent
  { colors
    isGrey := grey && (greyDepth colors).bits ≤ depth.bits
    hasAlpha := colors.any (!·.isOpaque)
    depth :=
      if grey && (greyDepth colors).bits ≤ depth.bits then greyDepth colors else depth }

/-- The grey level for fully transparent pixels. Four bits leave room for a level that no
device grey uses; otherwise it is the first device grey that no opaque pixel has. -/
def transparentLevel (analysis : Analysis) (depth : Depth) : Except Picture.Error UInt8 :=
  if depth = .four then .ok 0xC
  else
    match [0, 255, 85, 170].find? fun level => Color.grey level ∉ analysis.colors with
    | some level => .ok (depth.scale level)
    | none => .error (.noTransparentLevel depth.bits)

def palette (analysis : Analysis) : Palette :=
  if analysis.hasAlpha then .rgba analysis.colors
  else .rgb (analysis.colors.map fun c => (c.r, c.g, c.b))

end Analysis

namespace Raster

def reduced (raster : Raster) (family : Family) (method : Method) : List Color :=
  raster.pixels.map (family.reduce method)

def analyze (raster : Raster) (family : Family) (method : Method) : Analysis :=
  .ofColors (firstSeen (raster.reduced family method))

end Raster

namespace Quantized

def greyValue (depth : Depth) (transparent : Option UInt8) (c : Color) : UInt8 :=
  match transparent with
  | some level => if c.a = 0 then level else depth.scale c.r
  | none => depth.scale c.r

/-- The palette position of a reduced pixel, which is 0 for a colour that is not listed. -/
def indexValue (colors : List Color) (c : Color) : UInt8 :=
  if c ∈ colors then UInt8.ofNat (colors.idxOf c) else 0

/-- Quantize a raster. A depth may be forced, but not below the one that is needed, and
grey levels are kept only at the depth they were chosen for. -/
def ofRaster (raster : Raster) (options : ConvertOptions) : Except Picture.Error Quantized := do
  let analysis := raster.analyze options.family options.method
  let depth := options.depth.getD analysis.depth
  if depth.bits < analysis.depth.bits then
    throw (.depthTooLow depth.bits analysis.depth.bits)
  let pixels := raster.reduced options.family options.method
  if analysis.isGrey && depth = analysis.depth then
    let transparent ←
      if analysis.hasAlpha then some <$> analysis.transparentLevel depth else pure none
    return { width := raster.width, height := raster.height, depth
             shading := .grey transparent
             pixels := pixels.map (greyValue depth transparent) }
  else
    return { width := raster.width, height := raster.height, depth
             shading := .indexed analysis.palette
             pixels := pixels.map (indexValue analysis.colors) }

end Quantized

end ResourcePack
