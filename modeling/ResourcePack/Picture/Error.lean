/-!
# Why a picture cannot be converted
-/

namespace ResourcePack

namespace Picture

/-- The cause of a failure to read, reduce or write a picture. -/
inductive Error where
  | unknownFamily (name : String)
  | unknownMethod (name : String)
  | invalidDepth (bits : UInt8)
  /-- The depth asked for cannot hold the colours. -/
  | depthTooLow (forced required : Nat)
  /-- Every grey level of this depth is taken. -/
  | noTransparentLevel (bits : Nat)
  | rasterSize (width height : UInt32) (count : Nat)
  /-- The bytes are not a picture. -/
  | undecodable
  /-- The picture cannot be stored. -/
  | unencodable
  deriving DecidableEq, Repr

namespace Error

def message : Error → String
  | .unknownFamily name => s!"unknown palette '{name}', expected pebble64 or pebble2"
  | .unknownMethod name =>
    s!"unknown color reduction method '{name}', expected nearest or truncate"
  | .invalidDepth bits => s!"unsupported bit depth {bits}, expected 1, 2, 4 or 8"
  | .depthTooLow forced required =>
    s!"tried to force {forced} bits; need at least {required}"
  | .noTransparentLevel bits =>
    s!"no free grey level left to mark transparency at {bits} bits"
  | .rasterSize width height count => s!"raster is {width}x{height} but holds {count} pixels"
  | .undecodable => "failed to decode image"
  | .unencodable => "failed to encode image"

/-- Whether the settings are at fault rather than the picture. -/
def isConfiguration : Error → Bool
  | .unknownFamily _ | .unknownMethod _ | .invalidDepth _ | .depthTooLow _ _ => true
  | _ => false

end Error

end Picture

end ResourcePack
