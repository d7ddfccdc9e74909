import ResourcePack.Bytes

/-!
# Chunks of a PNG file

After its signature, a PNG file is a sequence of chunks: the length of the data, four
letters for the kind, the data, and a checksum of kind and data. A small first letter
marks a kind that a reader may skip.
-/

namespace ResourcePack

namespace Png

def signature : Bytes := [0x89, 0x50, 0x4E, 0x47, 0x0D, 0x0A, 0x1A, 0x0A]

/-- One step of the chunk checksum: its polynomial, least significant bit first. -/
def checksumShift (register : UInt32) : UInt32 :=
  if register &&& 1 = 0 then register >>> 1 else register >>> 1 ^^^ 0xEDB88320

def checksum (data : Bytes) : UInt32 :=
  ~~~data.foldl
    (fun register byte => Nat.repeat checksumShift 8 (register ^^^ byte.toUInt32)) 0xFFFFFFFF

/-- A chunk, without its length and checksum. -/
structure Chunk where
  kind : Bytes
  data : Bytes
  deriving DecidableEq, Repr

namespace Chunk

/-- `IHDR`: size and pixel format. -/
def header : Bytes := [0x49, 0x48, 0x44, 0x52]

/-- `PLTE`: the colours that indices stand for. -/
def palette : Bytes := [0x50, 0x4C, 0x54, 0x45]

/-- `tRNS`: opacity for a picture whose pixels have none. -/
def transparency : Bytes := [0x74, 0x52, 0x4E, 0x53]

/-- `IDAT`: compressed pixels, or a part of them. -/
def content : Bytes := [0x49, 0x44, 0x41, 0x54]

/-- `bKGD`: the colour to show the picture on. -/
def background : Bytes := [0x62, 0x4B, 0x47, 0x44]

/-- `cICP`: how numbers stand for colours. -/
def coding : Bytes := [0x63, 0x49, 0x43, 0x50]

/-- `fcTL`: the place and timing of a frame of an animation. -/
def frame : Bytes := [0x66, 0x63, 0x54, 0x4C]

/-- `fdAT`: compressed pixels of a frame that is not the picture itself. -/
def frameContent : Bytes := [0x66, 0x64, 0x41, 0x54]

/-- `IEND`: the end. -/
def ending : Bytes := [0x49, 0x45, 0x4E, 0x44]

/-- The letters of a kind. -/
def letters (kind : Bytes) : String :=
  String.ofList (kind.map Char.ofUInt8)

/-- Whether a reader may skip a chunk of this kind. -/
def isAncillary (kind : Bytes) : Bool :=
  kind.head?.any (· &&& 0x20 ≠ 0)

def toBytes (chunk : Chunk) : Bytes :=
  Word.bigEndian (UInt32.ofNat chunk.data.length) ++ chunk.kind ++ chunk.data ++
    Word.bigEndian (checksum (chunk.kind ++ chunk.data))

/-- The kind of the chunk at the start of a byte string, the length of its data, and the
bytes from its data on. -/
def start? : Bytes → Option (Bytes × Nat × Bytes)
  | a :: b :: c :: d :: k₁ :: k₂ :: k₃ :: k₄ :: rest =>
    some ([k₁, k₂, k₃, k₄], (Word.ofBigEndian a b c d).toNat, rest)
  | _ => none

/-- The chunk at the start of a byte string, whether its checksum agrees, and the bytes
after it. -/
def take? (bytes : Bytes) : Option (Chunk × Bool × Bytes) := do
  let (kind, length, rest) ← start? bytes
  let data := rest.take length
  let (stored, after) ← Word.takeBigEndian? (rest.drop length)
  return ({ kind, data }, stored = checksum (kind ++ data), after)

/-- The chunks of a byte string that consists of intact ones; `count` bounds their
number. -/
def takeAll? : (count : Nat) → Bytes → Option (List Chunk)
  | _, [] => some []
  | 0, _ => none
  | count + 1, bytes =>
    match take? bytes with
    | some (chunk, true, rest) => (takeAll? count rest).map (chunk :: ·)
    | _ => none

/-- All chunks of a file that has the signature and intact chunks only. -/
def ofFile? (file : Bytes) : Option (List Chunk) :=
  if file.take signature.length = signature then
    takeAll? file.length (file.drop signature.length)
  else none

end Chunk

end Png

end ResourcePack
