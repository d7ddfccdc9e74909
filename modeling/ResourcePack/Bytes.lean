/-!
# Byte strings and the words in them

Everything stored in a pack or an image file is a byte string. `Word` reads and writes
the 32-bit words inside one: packs store them least significant byte first, PNG chunks
most significant byte first.
-/

namespace ResourcePack

abbrev Bytes := List UInt8

namespace Word

/-- The four bytes of a word, least significant first. -/
def littleEndian (w : UInt32) : Bytes :=
  [w.toUInt8, (w >>> 8).toUInt8, (w >>> 16).toUInt8, (w >>> 24).toUInt8]

/-- The four bytes of a word, most significant first. -/
def bigEndian (w : UInt32) : Bytes :=
  [(w >>> 24).toUInt8, (w >>> 16).toUInt8, (w >>> 8).toUInt8, w.toUInt8]

/-- The word whose bytes are `a`, `b`, `c`, `d` from the least significant up. -/
def ofLittleEndian (a b c d : UInt8) : UInt32 :=
  a.toUInt32 ||| b.toUInt32 <<< 8 ||| c.toUInt32 <<< 16 ||| d.toUInt32 <<< 24

/-- The word whose bytes are `a`, `b`, `c`, `d` from the most significant down. -/
def ofBigEndian (a b c d : UInt8) : UInt32 :=
  ofLittleEndian d c b a

/-- The first word of a byte string, little-endian, and the bytes after it. -/
def takeLittleEndian? : Bytes → Option (UInt32 × Bytes)
  | a :: b :: c :: d :: rest => some (ofLittleEndian a b c d, rest)
  | _ => none

/-- The first word of a byte string, big-endian, and the bytes after it. -/
def takeBigEndian? : Bytes → Option (UInt32 × Bytes)
  | a :: b :: c :: d :: rest => some (ofBigEndian a b c d, rest)
  | _ => none

@[simp] theorem length_littleEndian (w : UInt32) : (littleEndian w).length = 4 := rfl

@[simp] theorem length_bigEndian (w : UInt32) : (bigEndian w).length = 4 := rfl

theorem bigEndian_eq_reverse (w : UInt32) : bigEndian w = (littleEndian w).reverse := rfl

theorem toNat_byte_shiftLeft (x : UInt8) {k : UInt32} (hk : k.toNat ≤ 24) :
    (x.toUInt32 <<< k).toNat = x.toNat <<< k.toNat := by
  have hx := x.toNat_lt
  have bound : 2 ^ k.toNat * x.toNat < 2 ^ 32 := by
    calc
      2 ^ k.toNat * x.toNat ≤ 2 ^ 24 * x.toNat :=
        Nat.mul_le_mul_right _ (Nat.pow_le_pow_right (by decide) hk)
      _ < 2 ^ 32 := by omega
  rw [UInt32.toNat_shiftLeft, UInt8.toNat_toUInt32, Nat.mod_eq_of_lt (a := k.toNat) (by omega),
    Nat.shiftLeft_eq, Nat.mul_comm, Nat.mod_eq_of_lt bound]

theorem toNat_ofLittleEndian (a b c d : UInt8) :
    (ofLittleEndian a b c d).toNat =
      a.toNat + 0x100 * b.toNat + 0x10000 * c.toNat + 0x1000000 * d.toNat := by
  have ha := a.toNat_lt
  have hb := b.toNat_lt
  have hc := c.toNat_lt
  have low := Nat.two_pow_add_eq_or_of_lt (i := 8) ha b.toNat
  have middle := Nat.two_pow_add_eq_or_of_lt (i := 16) (b := 2 ^ 8 * b.toNat + a.toNat)
    (by omega) c.toNat
  have high := Nat.two_pow_add_eq_or_of_lt (i := 24)
    (b := 2 ^ 16 * c.toNat + (2 ^ 8 * b.toNat + a.toNat)) (by omega) d.toNat
  simp only [ofLittleEndian, UInt32.toNat_or, UInt8.toNat_toUInt32]
  rw [toNat_byte_shiftLeft b (by decide), toNat_byte_shiftLeft c (by decide),
    toNat_byte_shiftLeft d (by decide), Nat.shiftLeft_eq, Nat.shiftLeft_eq, Nat.shiftLeft_eq,
    Nat.mul_comm b.toNat, Nat.mul_comm c.toNat, Nat.mul_comm d.toNat]
  change a.toNat ||| 2 ^ 8 * b.toNat ||| 2 ^ 16 * c.toNat ||| 2 ^ 24 * d.toNat = _
  rw [Nat.or_comm a.toNat, ← low, Nat.or_comm _ (2 ^ 16 * _), ← middle,
    Nat.or_comm _ (2 ^ 24 * _), ← high]
  omega

theorem ofLittleEndian_bytes (w : UInt32) :
    ofLittleEndian w.toUInt8 (w >>> 8).toUInt8 (w >>> 16).toUInt8 (w >>> 24).toUInt8 = w := by
  apply UInt32.toNat_inj.1
  have h := w.toNat_lt
  rw [toNat_ofLittleEndian]
  simp only [UInt32.toNat_toUInt8, UInt32.toNat_shiftRight, Nat.shiftRight_eq_div_pow]
  change w.toNat % 2 ^ 8 + 2 ^ 8 * (w.toNat / 2 ^ 8 % 2 ^ 8) +
    2 ^ 16 * (w.toNat / 2 ^ 16 % 2 ^ 8) + 2 ^ 24 * (w.toNat / 2 ^ 24 % 2 ^ 8) = w.toNat
  omega

@[simp] theorem takeLittleEndian?_append (w : UInt32) (rest : Bytes) :
    takeLittleEndian? (littleEndian w ++ rest) = some (w, rest) := by
  simp only [littleEndian, List.cons_append, List.nil_append, takeLittleEndian?,
    ofLittleEndian_bytes]

@[simp] theorem takeBigEndian?_append (w : UInt32) (rest : Bytes) :
    takeBigEndian? (bigEndian w ++ rest) = some (w, rest) := by
  simp only [bigEndian, List.cons_append, List.nil_append, takeBigEndian?, ofBigEndian,
    ofLittleEndian_bytes]

end Word

end ResourcePack
