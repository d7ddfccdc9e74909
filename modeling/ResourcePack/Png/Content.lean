import ResourcePack.Deflate.Zlib
import ResourcePack.Png.Interlace
import ResourcePack.Png.Preamble
import ResourcePack.Png.Scanline

/-!
# The content of a PNG file

`Content` is what a file says about its picture: the header, the two chunks that give
indices and greys their colours, and the rows of every grid as they were before
filtering. `toBytes` writes a file and `ofBytes?` reads one.

The chunks of compressed pixels come one after the other and have to be intact. They are
expanded only as far as there is room for rows. If that is full, the end of the compressed
data may be missing, and if not, it has to be there. More data may follow. The chunk after
the pixels has to begin, but nothing in it matters.
-/

namespace ResourcePack

namespace Png

/-- What a file says about its picture. -/
structure Content where
  header : Header
  palette : Option Bytes
  transparency : Option Bytes
  /-- The rows of every grid. -/
  grids : List (List Bytes)
  deriving DecidableEq, Repr

namespace Content

/-- The grids of a picture that have a pixel. -/
def passes (header : Header) : List Pass :=
  if header.interlaced then
    Pass.adam7.filter fun pass =>
      0 < pass.columns header.width.toNat && 0 < pass.rows header.height.toNat
  else [.whole]

/-- The most bytes of compressed pixels that one chunk gets. -/
def pieceLimit : Nat := 0x7FFFFFFF

/-- Cut compressed pixels into the data of chunks; `count` bounds how often. -/
def cut : (count : Nat) → Bytes → List Bytes
  | 0, data => [data]
  | count + 1, data =>
    if data.length ≤ pieceLimit then [data]
    else data.take pieceLimit :: cut count (data.drop pieceLimit)

def compressed (content : Content) : List Bytes :=
  let data := Zlib.compress (content.grids.flatMap Scanline.unfiltered)
  cut (data.length / pieceLimit) data

def toChunks (content : Content) : List Chunk :=
  [⟨Chunk.header, content.header.toBytes⟩] ++
    (content.palette.map (⟨Chunk.palette, ·⟩)).toList ++
    (content.transparency.map (⟨Chunk.transparency, ·⟩)).toList ++
    content.compressed.map (⟨Chunk.content, ·⟩) ++ [⟨Chunk.ending, []⟩]

def toBytes (content : Content) : Bytes :=
  signature ++ content.toChunks.flatMap Chunk.toBytes

/-- The size of the rows of grids, each after the byte for its filter. -/
def sizeOf (header : Header) (passes : List Pass) : Nat :=
  passes.foldl (fun size pass => size +
    pass.rows header.height.toNat * (1 + header.rowBytes (pass.columns header.width.toNat))) 0

def size (header : Header) : Nat := sizeOf header (passes header)

/-- How much room there is for rows. In an interlaced picture that is too narrow to have
pixels on every grid, the rows of a grid without columns get a byte each although they do
not come. -/
def room (header : Header) : Nat :=
  if header.interlaced then sizeOf header Pass.adam7 else size header

/-- The data of the chunks of pixels that a byte string starts with. A chunk of another kind
has to begin after them. -/
def pieces? : (count : Nat) → Bytes → Option (List Bytes)
  | 0, _ => none
  | count + 1, bytes => do
    let (kind, _) ← Chunk.start? bytes
    if kind = Chunk.content then
      let (chunk, intact, rest) ← Chunk.take? bytes
      if intact then (pieces? count rest).map (chunk.data :: ·) else none
    else return []

/-- The rows of grids, one after the other in the data. -/
def grids? (header : Header) : List Pass → Bytes → Option (List (List Bytes))
  | [], _ => some []
  | pass :: passes, data => do
    let size := header.rowBytes (pass.columns header.width.toNat)
    let stride := (header.pixelBits + 7) / 8
    let (rows, rest) ← Scanline.rows? stride size [] (pass.rows header.height.toNat) data
    return rows :: (← grids? header passes rest)

def ofBytes? (file : Bytes) : Option Content := do
  if file.take signature.length ≠ signature then none
  else
    let (chunk, intact, rest) ← Chunk.take? (file.drop signature.length)
    if !intact || chunk.kind ≠ Chunk.header then none
    else
      let header ← Header.ofBytes? chunk.data
      let (preamble, rest) ← Preamble.empty.read header file.length rest
      if header.kind = .indexed && preamble.palette.isNone then none
      else
        let data ← Zlib.decompressTo? (size header) (room header) (← pieces? file.length rest)
        return { header
                 palette := preamble.palette
                 transparency := preamble.transparency
                 grids := ← grids? header (passes header) data }

end Content

end Png

end ResourcePack
