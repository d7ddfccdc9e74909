import Mathlib
import ResourcePack.Png.Content

/-!
# Chunks come back

A chunk is found again if its length fits the word for it, which the cutting of compressed
pixels sees to. Before the pixels, a palette and a transparency chunk are taken in if they
have lengths that a reader accepts.
-/

namespace ResourcePack.Png

namespace Chunk

/-- A chunk that can be written without loss. -/
structure Sound (chunk : Chunk) : Prop where
  kind : chunk.kind.length = 4
  small : chunk.data.length < 2 ^ 32

/-- The number of chunks is bounded by that of their bytes. -/
theorem length_le_length_toBytes (chunks : List Chunk) :
    chunks.length ≤ (chunks.flatMap toBytes).length := by
  induction chunks with
  | nil => exact Nat.le_refl 0
  | cons chunk chunks ih =>
      simp only [List.length_cons, List.flatMap_cons, List.length_append, toBytes,
        Word.length_bigEndian]
      omega

theorem start?_toBytes {chunk : Chunk} (sound : chunk.Sound) (rest : Bytes) :
    start? (chunk.toBytes ++ rest) = some (chunk.kind, chunk.data.length,
      chunk.data ++ (Word.bigEndian (checksum (chunk.kind ++ chunk.data)) ++ rest)) := by
  obtain ⟨kind, data⟩ := chunk
  obtain ⟨four, small⟩ := sound
  match kind, four with
  | [k₁, k₂, k₃, k₄], _ =>
      have length : (UInt32.ofNat data.length).toNat = data.length :=
        UInt32.toNat_ofNat_of_lt' small
      simp only [toBytes, List.append_assoc]
      simp only [Word.bigEndian, List.cons_append, List.nil_append, start?, Word.ofBigEndian,
        Word.ofLittleEndian_bytes, length]

theorem take?_toBytes {chunk : Chunk} (sound : chunk.Sound) (rest : Bytes) :
    take? (chunk.toBytes ++ rest) = some (chunk, true, rest) := by
  simp only [take?, start?_toBytes sound, bind, Option.bind, List.drop_left,
    Word.takeBigEndian?_append, List.take_left, decide_true]
  rfl

end Chunk

namespace Header

/-- A header is found again if a reader accepts it. -/
theorem ofBytes?_toBytes {header : Header} (width : header.width ≠ 0) (height : header.height ≠ 0)
    (bits : header.bits ∈ header.kind.depths) : ofBytes? header.toBytes = some header := by
  obtain ⟨w, h, kind, n, interlaced⟩ := header
  have byte : (UInt8.ofNat n).toNat = n := by
    have few : n ≤ 16 := by
      cases kind <;>
        simp only [PixelKind.depths, List.mem_cons, List.not_mem_nil, or_false] at bits <;> omega
    exact UInt8.toNat_ofNat_of_lt' (Nat.lt_of_le_of_lt few (by decide))
  simp only at width height bits
  simp only [ofBytes?, toBytes, List.append_assoc, Word.takeBigEndian?_append, bind, Option.bind,
    PixelKind.ofCode?_code, byte, width, height, bits]
  cases interlaced <;> rfl

end Header

namespace Preamble

variable {header : Header} {preamble : Preamble} {count : Nat} {data : Bytes}

/-- Reading stops where the pixels begin. -/
theorem read_content (small : data.length < 2 ^ 32) (rest : Bytes) :
    read header (count + 1) preamble (Chunk.toBytes ⟨Chunk.content, data⟩ ++ rest) =
      some (preamble, Chunk.toBytes ⟨Chunk.content, data⟩ ++ rest) := by
  have sound : Chunk.Sound ⟨Chunk.content, data⟩ := ⟨rfl, small⟩
  simp only [read, Chunk.start?_toBytes sound, bind, Option.bind, if_true]
  rfl

/-- A whole chunk of an allowed length is taken in. -/
theorem read_add {kind : Bytes} {next : Preamble} (sound : Chunk.Sound ⟨kind, data⟩)
    (before : kind ≠ Chunk.content ∧ kind ≠ Chunk.frameContent)
    (allowed : allows kind data.length = true)
    (added : preamble.add? header ⟨kind, data⟩ = some next) (rest : Bytes) :
    read header (count + 1) preamble (Chunk.toBytes ⟨kind, data⟩ ++ rest) =
      read header count next rest := by
  simp only [read, Chunk.start?_toBytes sound, Chunk.take?_toBytes sound, bind, Option.bind,
    if_neg before.1, if_neg before.2, allowed, Bool.and_self, if_true, added]

theorem read_palette (least : 3 ≤ data.length) (most : data.length ≤ 3 * 256)
    (first : preamble.palette = none) (rest : Bytes) :
    read header (count + 1) preamble (Chunk.toBytes ⟨Chunk.palette, data⟩ ++ rest) =
      read header count { preamble with palette := some data } rest := by
  apply read_add ⟨rfl, by dsimp only; omega⟩ (by decide)
  · simp [allows, least, most]
  · simp [add?, first]

theorem read_transparency (least : 1 ≤ data.length) (most : data.length ≤ 256)
    (accepted : preamble.acceptsTransparency header.kind data = true) (rest : Bytes) :
    read header (count + 1) preamble (Chunk.toBytes ⟨Chunk.transparency, data⟩ ++ rest) =
      read header count { preamble with transparency := some data } rest := by
  apply read_add ⟨rfl, by dsimp only; omega⟩ (by decide)
  · simp [allows, least, most, Chunk.transparency, Chunk.palette]
  · simp [add?, accepted, Chunk.transparency, Chunk.palette]

/-- Between the palette and the pixels there is a transparency chunk or none. -/
theorem read_transparency_content {opacity : Option Bytes} (fresh : preamble.transparency = none)
    (accepts : ∀ values, opacity = some values → 1 ≤ values.length ∧ values.length ≤ 256 ∧
      preamble.acceptsTransparency header.kind values = true)
    (small : data.length < 2 ^ 32) (rest : Bytes) :
    read header (count + 2) preamble
        ((opacity.map (Chunk.mk Chunk.transparency)).toList.flatMap Chunk.toBytes ++
          (Chunk.toBytes ⟨Chunk.content, data⟩ ++ rest)) =
      some ({ preamble with transparency := opacity },
        Chunk.toBytes ⟨Chunk.content, data⟩ ++ rest) := by
  cases opacity with
  | none =>
      have unchanged : { preamble with transparency := none } = preamble := by rw [← fresh]
      rw [unchanged]
      exact read_content small rest
  | some values =>
      obtain ⟨least, most, accepted⟩ := accepts values rfl
      rw [Option.map_some, Option.toList_some, List.flatMap_singleton,
        read_transparency least most accepted, read_content small]

end Preamble

namespace Content

/-- Cutting leaves nothing out. -/
theorem flatten_cut (count : Nat) (data : Bytes) : (cut count data).flatten = data := by
  induction count generalizing data with
  | zero => simp [cut]
  | succ count ih =>
      rw [cut]
      split
      · simp
      · rw [List.flatten_cons, ih, List.take_append_drop]

/-- No piece is too long for a chunk. -/
theorem length_of_mem_cut {count : Nat} {data piece : Bytes}
    (few : data.length ≤ pieceLimit * (count + 1)) (member : piece ∈ cut count data) :
    piece.length ≤ pieceLimit := by
  induction count generalizing data with
  | zero =>
      obtain rfl := List.mem_singleton.mp member
      simpa using few
  | succ count ih =>
      rw [cut] at member
      split at member
      · obtain rfl := List.mem_singleton.mp member
        assumption
      · rcases List.mem_cons.mp member with rfl | member
        · exact List.length_take_le _ _
        · apply ih _ member
          rw [Nat.mul_succ] at few
          rw [List.length_drop]
          omega

/-- The pieces before the end of a file are found again. -/
theorem pieces?_chunks {parts : List Bytes} {count : Nat}
    (small : ∀ part ∈ parts, part.length < 2 ^ 32) (enough : parts.length < count) :
    pieces? count ((parts.map (Chunk.mk Chunk.content) ++ [Chunk.mk Chunk.ending []]).flatMap
      Chunk.toBytes) = some parts := by
  induction parts generalizing count with
  | nil =>
      obtain ⟨count, rfl⟩ := Nat.exists_eq_succ_of_ne_zero (Nat.ne_of_gt enough)
      rfl
  | cons part parts ih =>
      obtain ⟨count, rfl⟩ := Nat.exists_eq_succ_of_ne_zero (Nat.ne_of_gt (Nat.zero_lt_of_lt enough))
      have sound : Chunk.Sound ⟨Chunk.content, part⟩ := ⟨rfl, small part List.mem_cons_self⟩
      have fewer : ∀ part ∈ parts, part.length < 2 ^ 32 := by
        intro part hp
        exact small part (List.mem_cons_of_mem _ hp)
      have others := ih fewer (Nat.lt_of_succ_lt_succ enough)
      simp only [List.map_cons, List.cons_append, List.flatMap_cons, pieces?,
        Chunk.start?_toBytes sound, Chunk.take?_toBytes sound, bind, Option.bind, if_true, others,
        Option.map_some]

end Content

end ResourcePack.Png
