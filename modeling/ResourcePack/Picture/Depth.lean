import ResourcePack.Picture.Error
import ResourcePack.Text.Blank
import ResourcePack.Text.Digits

/-!
# Bit depths

A pixel of a reduced picture takes 1, 2, 4 or 8 bits: those are the depths that both the
file format and the watch's bitmaps have.
-/

namespace ResourcePack

/-- The number of bits in a stored pixel. -/
inductive Depth where
  | one
  | two
  | four
  | eight
  deriving DecidableEq, Repr

namespace Depth

def bits : Depth → Nat
  | .one => 1
  | .two => 2
  | .four => 4
  | .eight => 8

def size : Depth → Nat
  | .one => 2
  | .two => 4
  | .four => 16
  | .eight => 256

def ofBits (bits : UInt8) : Except Picture.Error Depth :=
  if bits = 1 then .ok .one
  else if bits = 2 then .ok .two
  else if bits = 4 then .ok .four
  else if bits = 8 then .ok .eight
  else .error (.invalidDepth bits)

/-- The least depth whose pixels can have this many values. -/
def forColors (count : Nat) : Depth :=
  if count ≤ 2 then .one
  else if count ≤ 4 then .two
  else if count ≤ 16 then .four
  else .eight

/-- The grey level of this depth for an 8-bit level: its topmost bits. -/
def scale (depth : Depth) (level : UInt8) : UInt8 :=
  level >>> UInt8.ofNat (8 - depth.bits)

/-- The number that decimal digits stand for, behind an optional plus sign; none if it
does not fit a byte. -/
def byte? (text : List Char) : Option UInt8 :=
  let digits := match text with
    | '+' :: rest => rest
    | _ => text
  if digits.isEmpty || !digits.all Char.isDigit then none
  else
    let value := Text.number 10 digits
    if value < 256 then some (UInt8.ofNat value) else none

/-- The depth that a text names, blanks around it aside. A text that is no number from 0
to 255 is reported as 0. -/
def parse (text : String) : Except Picture.Error Depth :=
  match byte? (Text.trimChars text.toList) with
  | some bits => ofBits bits
  | none => .error (.invalidDepth 0)

theorem one_le_bits (depth : Depth) : 1 ≤ depth.bits := by cases depth <;> decide

theorem bits_le_eight (depth : Depth) : depth.bits ≤ 8 := by cases depth <;> decide

theorem bits_injective {d e : Depth} (h : d.bits = e.bits) : d = e := by
  cases d <;> cases e <;> first | rfl | contradiction

@[simp] theorem ofBits_bits (depth : Depth) : ofBits (UInt8.ofNat depth.bits) = .ok depth := by
  cases depth <;> rfl

end Depth

end ResourcePack
