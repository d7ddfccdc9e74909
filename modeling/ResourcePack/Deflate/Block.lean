import ResourcePack.Deflate.Huffman

/-!
# Blocks of compressed data

Compressed data is a sequence of blocks. A block is stored as it is, or it is a sequence
of symbols that stand for single bytes and for copies of bytes already produced, in
fixed codes or in codes the block itself describes. A code has to be complete, except
that a code for distances may also have a single word of one bit or none at all.

`Block.start` reads what comes before the bytes or symbols of a block.
-/

namespace ResourcePack

namespace Deflate

/-- The symbol that ends a block. Those below it are bytes, those above it lengths. -/
def endOfBlock : Nat := 256

structure Codes where
  literal : Huffman
  distance : Huffman
  deriving Repr

namespace Codes

/-- The codes of a block that does not describe its own. -/
def fixed : Codes where
  literal := .ofWidths (List.replicate 144 8 ++ List.replicate 112 9 ++
    List.replicate 24 7 ++ List.replicate 8 8)
  distance := .ofWidths (List.replicate 30 5)

/-- The order in which a block gives the widths of the code for widths. -/
def widthOrder : List Nat :=
  [16, 17, 18, 0, 8, 7, 9, 6, 10, 5, 11, 4, 12, 3, 13, 2, 14, 1, 15]

/-- The numbers in the next `count` fields of `width` bits. -/
def fields (width : Nat) : (count : Nat) → Bits → Except Fault (List Nat × Bits)
  | 0, bits => .ok ([], bits)
  | count + 1, bits => do
    let (field, bits) ← bits.number width
    let (rest, bits) ← fields width count bits
    return (field :: rest, bits)

/-- What a symbol of the code for widths says: a width and how often it comes. Symbol 16
repeats the width before, and 17 and 18 are runs of the width 0. -/
def run (symbol : Nat) (last : Option Nat) (bits : Bits) :
    Except Fault (Nat × Nat × Bits) :=
  if symbol < 16 then .ok (symbol, 1, bits)
  else if symbol = 16 then do
    let (more, bits) ← bits.number 2
    match last with
    | some width => return (width, 3 + more, bits)
    | none => .error .malformed
  else if symbol = 17 then do
    let (more, bits) ← bits.number 3
    return (0, 3 + more, bits)
  else do
    let (more, bits) ← bits.number 7
    return (0, 11 + more, bits)

/-- Read the widths of `total` code words. The widths so far are in `done`, the last one
first. A word of the code for widths has at most seven bits and is looked up in as
many. -/
def widthsFrom (code : Huffman) (total : Nat) :
    (fuel : Nat) → List Nat → Bits → Except Fault (List Nat × Bits)
  | 0, _, _ => .error .malformed
  | fuel + 1, done, bits =>
    if done.length = total then .ok (done.reverse, bits)
    else do
      bits.await 7
      let (symbol, bits) ← code.symbol bits
      let (width, times, bits) ← run symbol done.head? bits
      if total < done.length + times then .error .malformed
      else widthsFrom code total fuel (List.replicate times width ++ done) bits

/-- The code with these widths, if it is one that literals may have. -/
def literalCode (widths : List Nat) : Except Fault Huffman :=
  let code := Huffman.ofWidths widths
  if code.isComplete ∧ code.widthOf endOfBlock ≠ 0 then .ok code else .error .malformed

/-- The code with these widths, if it is one that distances may have. -/
def distanceCode (widths : List Nat) : Except Fault Huffman :=
  let code := Huffman.ofWidths widths
  let used := widths.filter (· ≠ 0)
  if code.isComplete ∨ used = [] ∨ used = [1] then .ok code else .error .malformed

/-- The codes that a block describes. -/
def described (bits : Bits) : Except Fault (Codes × Bits) := do
  bits.await 14
  let (literals, bits) ← bits.number 5
  let (distances, bits) ← bits.number 5
  let (more, bits) ← bits.number 4
  let literals := 257 + literals
  let distances := 1 + distances
  if 286 < literals ∨ 30 < distances then .error .malformed
  else
    let (given, bits) ← fields 3 (4 + more) bits
    let placed := widthOrder.zip given
    let code := Huffman.ofWidths
      ((List.range widthOrder.length).map fun symbol => (placed.lookup symbol).getD 0)
    if !code.isComplete then .error .malformed
    else
      let total := literals + distances
      let (widths, bits) ← widthsFrom code total (total + 1) [] bits
      return (⟨← literalCode (widths.take literals), ← distanceCode (widths.drop literals)⟩, bits)

end Codes

/-- What is left of a block. -/
inductive Body where
  /-- So many bytes as they are. -/
  | stored (left : Nat)
  /-- Symbols up to the one that ends the block. -/
  | symbols (codes : Codes)
  deriving Repr

namespace Body

/-- The body of a stored block, after its length and the complement of that. -/
def ofLength (bits : Bits) : Except Fault (Body × Bits) :=
  match bits.aligned with
  | low :: high :: notLow :: notHigh :: rest =>
    if notLow = ~~~low ∧ notHigh = ~~~high then
      .ok (.stored (low.toNat + 256 * high.toNat), .ofBytes rest)
    else .error .malformed
  | _ => .error .unfinished

def ofKind (kind : Nat) (bits : Bits) : Except Fault (Body × Bits) :=
  match kind with
  | 0 => ofLength bits
  | 1 => .ok (.symbols .fixed, bits)
  | 2 => do
    let (codes, bits) ← Codes.described bits
    return (.symbols codes, bits)
  | _ => .error .malformed

end Body

namespace Block

/-- The fewest bits of a block: whether it is the last one, its kind, and an end of block
in the fixed code. -/
def minBits : Nat := 10

/-- The start of a block: whether it is the last one, its body, and the bits from there
on. It is looked at when there are bits enough for the shortest block. -/
def start (bits : Bits) : Except Fault (Bool × Body × Bits) := do
  bits.await minBits
  let (last, bits) ← bits.number 1
  let (kind, bits) ← bits.number 2
  let (body, bits) ← Body.ofKind kind bits
  return (last = 1, body, bits)

end Block

end Deflate

end ResourcePack
