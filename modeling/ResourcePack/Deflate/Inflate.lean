import ResourcePack.Deflate.Block

/-!
# Decompression

Compressed data may come in pieces, and it is expanded only as far as there is room for it.
`Expansion` is how far it has got. `Expansion.feed` takes one more piece: it expands until
the room for `size` bytes is full or the piece is used up. With the room full it still goes
on to the next block if the current one ends there, so a fault in what follows shows if the
same piece has it. `inflateTo?` stops at the first piece with which the room is full or the
data has ended, trailer included, and does not look at the ones after it. One of the two has
to happen.
-/

namespace ResourcePack

namespace Deflate

/-- What has been produced so far. -/
abbrev Output := Array UInt8

/-- Append `length` bytes, each a copy of the one `distance` places before it. -/
def copyBack (distance : Nat) : (length : Nat) → Output → Output
  | 0, out => out
  | length + 1, out => copyBack distance length (out.push (out.getD (out.size - distance) 0))

/-- The least length of the symbols above `endOfBlock`, and how many bits are added. -/
def lengthTable : Array (Nat × Nat) :=
  #[(3, 0), (4, 0), (5, 0), (6, 0), (7, 0), (8, 0), (9, 0), (10, 0), (11, 1), (13, 1), (15, 1),
    (17, 1), (19, 2), (23, 2), (27, 2), (31, 2), (35, 3), (43, 3), (51, 3), (59, 3), (67, 4),
    (83, 4), (99, 4), (115, 4), (131, 5), (163, 5), (195, 5), (227, 5), (258, 0)]

/-- The least distance of each distance symbol, and how many bits are added. -/
def distanceTable : Array (Nat × Nat) :=
  #[(1, 0), (2, 0), (3, 0), (4, 0), (5, 1), (7, 1), (9, 2), (13, 2), (17, 3), (25, 3), (33, 4),
    (49, 4), (65, 5), (97, 5), (129, 6), (193, 6), (257, 7), (385, 7), (513, 8), (769, 8),
    (1025, 9), (1537, 9), (2049, 10), (3073, 10), (4097, 11), (6145, 11), (8193, 12),
    (12289, 12), (16385, 13), (24577, 13)]

/-- The number that a table entry and the bits added to it make. -/
def extended (entry : Option (Nat × Nat)) (bits : Bits) : Except Fault (Nat × Bits) := do
  match entry with
  | some (least, width) =>
    let (more, bits) ← bits.number width
    return (least + more, bits)
  | none => .error .malformed

/-- What is read in one go: a byte or two, a copy, or the end of the block. -/
inductive Item where
  | byte (value : UInt8)
  | pair (first second : UInt8)
  | copy (length distance : Nat)
  | stop
  deriving DecidableEq, Repr

namespace Codes

/-- The most bits that two bytes read in one go have. -/
def pairWidth : Nat := 12

/-- Whether a byte is read in one go with the symbol after it. -/
def arePair (codes : Codes) (first second : Nat) : Bool :=
  let width := codes.literal.widthOf second
  second < endOfBlock && 1 < width && codes.literal.widthOf first + width ≤ pairWidth

/-- The item that starts with a byte. Of the bits after it, those that have not come count
as zeros, and if they would make a second byte, both have to wait. -/
def nextByte (codes : Codes) (first : Nat) (bits : Bits) : Except Fault (Item × Bits) :=
  match codes.literal.symbol? bits with
  | some (second, rest) =>
    if codes.arePair first second then .ok (.pair (UInt8.ofNat first) (UInt8.ofNat second), rest)
    else .ok (.byte (UInt8.ofNat first), bits)
  | none =>
    if (codes.literal.symbol? (bits.append [0, 0])).any (codes.arePair first ·.1) then
      .error .unfinished
    else .ok (.byte (UInt8.ofNat first), bits)

/-- Whether a symbol ends a block where an item is read. The fixed code has words for two
symbols beyond all lengths, and they do as well as `endOfBlock`. -/
def isStop (symbol : Nat) : Bool :=
  symbol = endOfBlock || endOfBlock + lengthTable.size < symbol

/-- The next item in a block with these codes. -/
def next (codes : Codes) (bits : Bits) : Except Fault (Item × Bits) := do
  let (symbol, bits) ← codes.literal.symbol bits
  if symbol < endOfBlock then codes.nextByte symbol bits
  else if isStop symbol then return (.stop, bits)
  else
    let (length, bits) ← extended lengthTable[symbol - (endOfBlock + 1)]? bits
    let (symbol, bits) ← codes.distance.symbol bits
    let (distance, bits) ← extended distanceTable[symbol]? bits
    return (.copy length distance, bits)

/-- The bits after the end of the block, if `endOfBlock` comes next. It is looked for when
there are bits enough for any word. -/
def afterStop? (codes : Codes) (bits : Bits) : Option Bits :=
  if bits.has Huffman.maxWidth then
    match codes.literal.symbol? bits with
    | some (symbol, bits) => if symbol = endOfBlock then some bits else none
    | none => none
  else none

/-- Expand symbols up to `size` bytes. The answer tells whether the block has ended; there
is none if the data makes no sense. An item takes at least one bit, so `fuel` need not be
more than the number of bits. -/
def expand (codes : Codes) (size : Nat) :
    (fuel : Nat) → Bits → Output → Option (Bool × Bits × Output)
  | 0, bits, out => some (false, bits, out)
  | fuel + 1, bits, out =>
    if size < out.size then some (false, bits, out)
    else if out.size = size then
      match codes.afterStop? bits with
      | some bits => some (true, bits, out)
      | none => some (false, bits, out)
    else
      match codes.next bits with
      | .error .malformed => none
      | .error .unfinished => some (false, bits, out)
      | .ok (.stop, bits) => some (true, bits, out)
      | .ok (.byte value, bits) => expand codes size fuel bits (out.push value)
      | .ok (.pair first second, bits) =>
        expand codes size fuel bits ((out.push first).push second)
      | .ok (.copy length distance, bits) =>
        if out.size < distance then none
        else expand codes size fuel bits (copyBack distance length out)

end Codes

namespace Body

/-- Expand a block up to `size` bytes. The answer holds what is left of it, if it has not
ended; there is none if the data makes no sense. -/
def expand (size fuel : Nat) (bits : Bits) (out : Output) :
    Body → Option (Option Body × Bits × Output)
  | .stored left =>
    let taken := bits.aligned.take (min left (size - out.size))
    let left := left - taken.length
    some (if left = 0 then none else some (.stored left),
      .ofBytes (bits.aligned.drop taken.length), out ++ taken)
  | .symbols codes =>
    match codes.expand size fuel bits out with
    | some (ended, bits, out) => some (if ended then none else some (.symbols codes), bits, out)
    | none => none

end Body

inductive Place where
  /-- Where a block starts. -/
  | between
  /-- In a block. -/
  | inside (last : Bool) (body : Body)
  /-- After the last block. -/
  | behind
  deriving Repr

/-- How far compressed data has been expanded: the place, the bits from there on as far as
they have come, and what has been produced. -/
structure Expansion where
  place : Place
  bits : Bits
  out : Output
  deriving Repr

namespace Expansion

def empty : Expansion := ⟨.between, .ofBytes [], #[]⟩

/-- Expand block by block up to `size` bytes. A block takes two steps and at least
`Block.minBits` bits. -/
def run (size : Nat) : (fuel : Nat) → Place → Bits → Output → Option Expansion
  | 0, place, bits, out => some ⟨place, bits, out⟩
  | _ + 1, .behind, bits, out => some ⟨.behind, bits, out⟩
  | fuel + 1, .between, bits, out =>
    match Block.start bits with
    | .error .malformed => none
    | .error .unfinished => some ⟨.between, bits, out⟩
    | .ok (last, body, bits) => run size fuel (.inside last body) bits out
  | fuel + 1, .inside last body, bits, out =>
    match body.expand size fuel bits out with
    | none => none
    | some (some body, bits, out) => some ⟨.inside last body, bits, out⟩
    | some (none, bits, out) => run size fuel (if last then .behind else .between) bits out

/-- Take one more piece. There is no answer if the data makes no sense. -/
def feed (size : Nat) (expansion : Expansion) (piece : Bytes) : Option Expansion :=
  let bits := expansion.bits.append piece
  run size (bits.bound + 3) expansion.place bits expansion.out

/-- Whether the data has ended, and with it a trailer of so many bytes. -/
def isOver (trailer : Nat) (expansion : Expansion) : Bool :=
  match expansion.place with
  | .behind => (expansion.bits.aligned.take trailer).length = trailer
  | _ => false

/-- Whether no more pieces are needed: the room is full, or the data is over. -/
def isSettled (room trailer : Nat) (expansion : Expansion) : Bool :=
  room ≤ expansion.out.size || expansion.isOver trailer

/-- Take pieces until no more are needed. There is no answer if it does not come to that. -/
def feedAll? (room trailer : Nat) : List Bytes → Expansion → Option Output
  | [], expansion => if expansion.isSettled room trailer then some expansion.out else none
  | piece :: pieces, expansion =>
    if expansion.isSettled room trailer then some expansion.out
    else
      match expansion.feed room piece with
      | some expansion => feedAll? room trailer pieces expansion
      | none => none

end Expansion

/-- The first `enough` bytes that compressed data stands for, if there is room for `room`
bytes and the data has a trailer of the given length. -/
def inflateTo? (enough room trailer : Nat) (pieces : List Bytes) : Option Bytes := do
  let out ← Expansion.empty.feedAll? room trailer pieces
  if enough ≤ out.size then some (out.toList.take enough) else none

end Deflate

end ResourcePack
