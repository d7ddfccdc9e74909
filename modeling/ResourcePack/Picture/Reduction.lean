import ResourcePack.Picture.Color
import ResourcePack.Picture.Error
import ResourcePack.Picture.Luma

/-!
# Device palettes and reduction to them

`pebble64` has two bits for each of red, green, blue and opacity, so a channel is one of
0, 85, 170 and 255. `pebble2` is black and white. A method says to which of its
neighbours a value between two levels goes. Opacity is reduced with the colour.
-/

namespace ResourcePack

/-- The colours a device can show. -/
inductive Family where
  | pebble64
  | pebble2
  deriving DecidableEq, Repr

/-- Where a value between two levels goes. -/
inductive Method where
  /-- To the closest level. -/
  | nearest
  /-- To the next lower level. -/
  | truncate
  deriving DecidableEq, Repr

namespace Method

def name : Method → String
  | .nearest => "nearest"
  | .truncate => "truncate"

def parse (text : String) : Except Picture.Error Method :=
  if text = "nearest" then .ok .nearest
  else if text = "truncate" then .ok .truncate
  else .error (.unknownMethod text)

@[simp] theorem parse_name (method : Method) : parse method.name = .ok method := by
  cases method <;> rfl

/-- The device level for a channel value. The levels are the multiples of 85. -/
def level (method : Method) (value : UInt8) : UInt8 :=
  match method with
  | .nearest => UInt8.ofNat ((value.toNat + 42) / 85 * 85)
  | .truncate => UInt8.ofNat (value.toNat / 85 * 85)

end Method

namespace Family

def name : Family → String
  | .pebble64 => "pebble64"
  | .pebble2 => "pebble2"

def parse (text : String) : Except Picture.Error Family :=
  if text = "pebble64" then .ok .pebble64
  else if text = "pebble2" then .ok .pebble2
  else .error (.unknownFamily text)

@[simp] theorem parse_name (family : Family) : parse family.name = .ok family := by
  cases family <;> rfl

/-- All or nothing. -/
def extreme (full : Bool) : UInt8 :=
  if full then 255 else 0

/-- Reduce to 64 colours. What is reduced to no opacity at all loses its colour. -/
def reduce64 (method : Method) (c : Color) : Color :=
  let a := method.level c.a
  if a = 0 then .transparent
  else ⟨method.level c.r, method.level c.g, method.level c.b, a⟩

/-- Reduce to black and white. Truncation leaves only what is full already. -/
def reduce2 (method : Method) (c : Color) : Color :=
  match method with
  | .nearest =>
    let level := extreme (Luma.isBright c.r c.g c.b)
    ⟨level, level, level, extreme (128 ≤ c.a)⟩
  | .truncate =>
    let level := extreme (c.r = 255 && c.g = 255 && c.b = 255)
    ⟨level, level, level, extreme (c.a = 255)⟩

def reduce (family : Family) (method : Method) : Color → Color :=
  match family with
  | .pebble64 => reduce64 method
  | .pebble2 => reduce2 method

end Family

end ResourcePack
