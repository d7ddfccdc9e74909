import ResourcePack.Png.Chunk
import ResourcePack.Png.Header

/-!
# What comes before the pixels

Between the header and the pixels a file may have chunks of many kinds. `Preamble` is what
they say, as far as it matters: to the colours of the pixels, or to whether the next chunk
makes sense.

An ancillary chunk is passed over if it is broken or has a length that its kind does not
have. Of the chunks that are whole, a few are refused: a second palette, a kind that is
neither known nor ancillary, a frame that is not the whole picture or does not come in its
turn, a coding of colours other than red, green and blue, and a background given as an
index when there is no palette. The pixels of frames have to come after those of the
picture.
-/

namespace ResourcePack

namespace Png

/-- What the chunks before the pixels say. -/
structure Preamble where
  palette : Option Bytes
  transparency : Option Bytes
  /-- Whether it has been said how numbers stand for colours. -/
  coded : Bool
  /-- How many frames have been announced. -/
  frames : Nat
  deriving DecidableEq, Repr

namespace Preamble

def empty : Preamble := ⟨none, none, false, 0⟩

/-- Whether a chunk of this kind may have data of this length. -/
def allows (kind : Bytes) (length : Nat) : Bool :=
  if kind = Chunk.palette then 3 ≤ length && length ≤ 3 * 256
  else if kind = Chunk.transparency then 1 ≤ length && length ≤ 256
  else if kind = Chunk.background then 1 ≤ length && length ≤ 6
  else if kind = Chunk.coding then length = 4
  else if kind = Chunk.frame then length = 26
  else true

/-- Whether a chunk of this kind and length may be passed over if it is broken or the length
is not one of its kind. An announced frame has to have the right length. -/
def isOptional (kind : Bytes) (length : Nat) : Bool :=
  Chunk.isAncillary kind && (kind ≠ Chunk.frame || allows kind length)

/-- Whether transparency data fits the pixels: it has two bytes for each sample of a grey
or of a colour, and for indices it comes after the palette. -/
def acceptsTransparency (preamble : Preamble) (kind : PixelKind) (data : Bytes) : Bool :=
  preamble.transparency.isNone &&
    match kind with
    | .grey | .rgb => 2 * kind.channels ≤ data.length
    | .indexed => preamble.palette.isSome
    | .greyAlpha | .rgba => false

/-- Whether a coding is one of red, green and blue in full or limited range. -/
def isCoding : Bytes → Bool
  | [_, _, 0, range] => range ≤ 1
  | _ => false

/-- Whether a frame comes in its turn and is the whole picture: it has the next number, the
size of the picture and no offset, and it is disposed of and blended in a known way. -/
def isFrame (header : Header) (frames : Nat) (data : Bytes) : Bool :=
  let turn := Word.bigEndian (UInt32.ofNat frames)
  let size := Word.bigEndian header.width ++ Word.bigEndian header.height
  (turn ++ size ++ List.replicate 8 0).isPrefixOf data &&
    match data.drop 24 with
    | [disposal, blending] => disposal ≤ 2 && blending ≤ 1
    | _ => false

/-- Take in a chunk that is whole. There is no answer if it is refused. -/
def add? (header : Header) (preamble : Preamble) (chunk : Chunk) : Option Preamble :=
  if chunk.kind = Chunk.palette then
    if preamble.palette.isNone then some { preamble with palette := some chunk.data } else none
  else if chunk.kind = Chunk.transparency then
    if preamble.acceptsTransparency header.kind chunk.data then
      some { preamble with transparency := some chunk.data }
    else some preamble
  else if chunk.kind = Chunk.coding then
    if preamble.coded || preamble.palette.isSome then some preamble
    else if isCoding chunk.data then some { preamble with coded := true }
    else none
  else if chunk.kind = Chunk.background then
    if header.kind = .indexed && preamble.palette.isNone then none else some preamble
  else if chunk.kind = Chunk.frame then
    if isFrame header preamble.frames chunk.data then
      some { preamble with frames := preamble.frames + 1 }
    else none
  else if Chunk.isAncillary chunk.kind then some preamble
  else none

/-- Read the chunks before the pixels. The answer has the bytes from the first chunk of
pixels on; `count` bounds the number of chunks. -/
def read (header : Header) : (count : Nat) → Preamble → Bytes → Option (Preamble × Bytes)
  | 0, _, _ => none
  | count + 1, preamble, bytes => do
    let (kind, length, _) ← Chunk.start? bytes
    if kind = Chunk.content then return (preamble, bytes)
    else if kind = Chunk.frameContent then none
    else
      let (chunk, intact, rest) ← Chunk.take? bytes
      if intact && allows kind length then read header count (← preamble.add? header chunk) rest
      else if isOptional kind length then read header count preamble rest
      else none

end Preamble

end Png

end ResourcePack
