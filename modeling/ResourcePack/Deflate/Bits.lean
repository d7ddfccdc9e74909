import ResourcePack.Bytes

/-!
# Bits of a byte string

Compressed data is a sequence of bits, taken from each byte from its least significant
bit up. Numbers come with their least significant bit first. The bits at hand may be only
the first part of the sequence, so an item that does not fit in them is no fault yet.
-/

namespace ResourcePack

namespace Deflate

/-- Why an item cannot be read. -/
inductive Fault where
  /-- There is no such item. -/
  | malformed
  /-- It takes more bits than are at hand. -/
  | unfinished
  deriving DecidableEq, Repr

/-- Bytes of which the first `used` bits have been taken. -/
structure Bits where
  used : Nat
  bytes : Bytes
  deriving DecidableEq, Repr

namespace Bits

def ofBytes (data : Bytes) : Bits := ⟨0, data⟩

def append (bits : Bits) (more : Bytes) : Bits := ⟨bits.used, bits.bytes ++ more⟩

def next? : Bits → Option (Bool × Bits)
  | ⟨_, []⟩ => none
  | ⟨used, byte :: rest⟩ =>
    some (byte.toNat.testBit used, if used = 7 then ⟨0, rest⟩ else ⟨used + 1, byte :: rest⟩)

/-- The number in the next `width` bits. -/
def number? : (width : Nat) → Bits → Option (Nat × Bits)
  | 0, bits => some (0, bits)
  | width + 1, bits => do
    let (bit, bits) ← bits.next?
    let (high, bits) ← number? width bits
    return (bit.toNat + 2 * high, bits)

/-- The number in the next `width` bits, or that there are not so many. -/
def number (width : Nat) (bits : Bits) : Except Fault (Nat × Bits) :=
  match bits.number? width with
  | some found => .ok found
  | none => .error .unfinished

/-- Whether `count` bits are left. Only as many bytes are looked at as this takes. -/
def has (bits : Bits) (count : Nat) : Bool :=
  let needed := (bits.used + count + 7) / 8
  (bits.bytes.take needed).length = needed

def await (bits : Bits) (count : Nat) : Except Fault Unit :=
  if bits.has count then .ok () else .error .unfinished

/-- The bytes after the one that has been begun. -/
def aligned (bits : Bits) : Bytes :=
  if bits.used = 0 then bits.bytes else bits.bytes.tail

/-- How many bits there are left, no more than this. -/
def bound (bits : Bits) : Nat := 8 * bits.bytes.length

@[simp] theorem aligned_ofBytes (data : Bytes) : (ofBytes data).aligned = data := rfl

@[simp] theorem append_ofBytes (data more : Bytes) :
    (ofBytes data).append more = ofBytes (data ++ more) := rfl

theorem has_iff (bits : Bits) (count : Nat) :
    bits.has count = true ↔ bits.used + count ≤ 8 * bits.bytes.length := by
  simp only [has, List.length_take, decide_eq_true_eq]
  omega

end Bits

end Deflate

end ResourcePack
