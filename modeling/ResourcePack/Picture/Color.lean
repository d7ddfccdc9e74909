/-!
# Colours
-/

namespace ResourcePack

/-- A pixel: red, green, blue and opacity, each from 0 to 255. -/
structure Color where
  r : UInt8
  g : UInt8
  b : UInt8
  a : UInt8
  deriving DecidableEq, Repr, Inhabited

namespace Color

/-- The colour that stands for every pixel one can see through entirely. -/
def transparent : Color := ⟨0, 0, 0, 0⟩

def grey (level : UInt8) : Color := ⟨level, level, level, 255⟩

def isOpaque (c : Color) : Bool := c.a = 255

def isOpaqueGrey (c : Color) : Bool := c.r = c.g && c.g = c.b && c.isOpaque

/-- The channels in the order they are stored. -/
def toList (c : Color) : List UInt8 := [c.r, c.g, c.b, c.a]

@[simp] theorem isOpaque_grey (level : UInt8) : (grey level).isOpaque = true := by
  simp [grey, isOpaque]

@[simp] theorem isOpaqueGrey_grey (level : UInt8) : (grey level).isOpaqueGrey = true := by
  simp [grey, isOpaqueGrey, isOpaque]

theorem isOpaqueGrey_iff (c : Color) : c.isOpaqueGrey = true ↔ c = grey c.r := by
  obtain ⟨r, g, b, a⟩ := c
  simp [isOpaqueGrey, isOpaque, grey]
  grind

end Color

end ResourcePack
