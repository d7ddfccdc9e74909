import ResourcePack.Bytes

/-!
# Rows of samples

A row of a picture is stored as bytes, samples side by side from the most significant
bit down and the last byte filled up with zeros. Before compression every row may be
filtered: each byte is replaced by its difference from a prediction made from the byte of
the pixel to the left, the byte above and the one to the left of that.
-/

namespace ResourcePack

namespace Png

namespace Scanline

/-- The samples in a byte, from its most significant bit down. -/
def unpackByte (bits : Nat) (byte : UInt8) : List Nat :=
  (List.range (8 / bits)).map fun n => byte.toNat >>> (8 - bits * (n + 1)) % (1 <<< bits)

/-- Numbers of two bytes each, the most significant one first. -/
def pairs : Bytes → List Nat
  | high :: low :: rest => (256 * high.toNat + low.toNat) :: pairs rest
  | _ => []

def unpack (bits : Nat) (row : Bytes) : List Nat :=
  if bits = 16 then pairs row else row.flatMap (unpackByte bits)

/-- A byte of as many samples as fit in it, with zeros in place of missing ones. Of a
sample that is too great, the lowest bits are stored. -/
def packByte (bits : Nat) (samples : List UInt8) : UInt8 :=
  UInt8.ofNat ((List.range (8 / bits)).foldl
    (fun byte n => byte <<< bits + (samples.getD n 0).toNat % (1 <<< bits)) 0)

/-- A row of `count` bytes made from samples. -/
def pack (bits : Nat) : (count : Nat) → List UInt8 → Bytes
  | 0, _ => []
  | count + 1, samples =>
    packByte bits samples :: pack bits count (samples.drop (8 / bits))

/-- `a`, `b` or `c`, whichever is nearest to `a + b - c`, in this order if equally
near. -/
def paeth (a b c : UInt8) : UInt8 :=
  let estimate : Int := a.toNat + b.toNat - c.toNat
  let distance (x : UInt8) := (estimate - x.toNat).natAbs
  if distance a ≤ distance b ∧ distance a ≤ distance c then a
  else if distance b ≤ distance c then b
  else c

/-- The prediction of a filter from the bytes to the left, above, and above to the
left. -/
def prediction? (filter : UInt8) : Option (UInt8 → UInt8 → UInt8 → UInt8) :=
  match filter with
  | 0 => some fun _ _ _ => 0
  | 1 => some fun left _ _ => left
  | 2 => some fun _ above _ => above
  | 3 => some fun left above _ => UInt8.ofNat ((left.toNat + above.toNat) / 2)
  | 4 => some paeth
  | _ => none

/-- The entry `distance` places before position `n`, or 0 outside the row. -/
def before (row : Array UInt8) (n distance : Nat) : UInt8 :=
  if n < distance then 0 else row.getD (n - distance) 0

/-- Add the predictions to a filtered row. Pixels are `stride` bytes apart. -/
def reconstruct (predict : UInt8 → UInt8 → UInt8 → UInt8) (stride : Nat) (above row : Bytes) :
    Bytes :=
  let above := above.toArray
  (row.foldl
    (fun (out : Array UInt8) byte =>
      let n := out.size
      out.push (byte + predict (before out n stride) (above.getD n 0) (before above n stride)))
    #[]).toList

/-- Undo the filter of a row. -/
def unfilter? (filter : UInt8) (stride : Nat) (above row : Bytes) : Option Bytes :=
  if filter = 0 then some row
  else (prediction? filter).map (reconstruct · stride above row)

/-- Take `count` rows of `size` bytes from filtered data. Every row comes after a byte
for its filter, and above the first row there are zeros. Also give the data left over. -/
def rows? (stride size : Nat) (above : Bytes) : (count : Nat) → Bytes → Option (List Bytes × Bytes)
  | 0, data => some ([], data)
  | count + 1, data =>
    match data with
    | [] => none
    | filter :: data =>
      let row := data.take size
      if row.length < size then none
      else
        match unfilter? filter stride above row with
        | none => none
        | some row =>
          match rows? stride size row count (data.drop size) with
          | none => none
          | some (rows, rest) => some (row :: rows, rest)

/-- Rows with the byte that says they are not filtered. -/
def unfiltered (rows : List Bytes) : Bytes :=
  rows.flatMap (0 :: ·)

end Scanline

end Png

end ResourcePack
