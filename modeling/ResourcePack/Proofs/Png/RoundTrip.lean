import Mathlib
import ResourcePack.Proofs.Deflate.Stored
import ResourcePack.Proofs.Png.Chunks
import ResourcePack.Proofs.Png.Rows

/-!
# Files come back

What a file of a quantized picture says is read back as it was written: header, palette,
transparency and rows. Pictures in one grid only are considered, since no others are
written.
-/

namespace ResourcePack.Png

namespace Content

/-- The content of a picture in one grid that a reader accepts. -/
structure Plain (content : Content) : Prop where
  width : content.header.width ≠ 0
  height : content.header.height ≠ 0
  bits : content.header.bits ∈ content.header.kind.depths
  whole : content.header.interlaced = false
  palette : ∀ data, content.palette = some data → 3 ≤ data.length ∧ data.length ≤ 3 * 256
  transparency : ∀ data, content.transparency = some data →
    1 ≤ data.length ∧ data.length ≤ 256 ∧
      Preamble.acceptsTransparency ⟨content.palette, none, false, 0⟩ content.header.kind data = true
  indexed : content.header.kind = .indexed → content.palette.isSome = true
  rows : ∃ rows, content.grids = [rows] ∧ rows.length = content.header.height.toNat ∧
    ∀ row ∈ rows, row.length = content.header.rowBytes content.header.width.toNat

theorem cut_ne_nil (count : Nat) (data : Bytes) : cut count data ≠ [] := by
  cases count with
  | zero => exact List.cons_ne_nil _ _
  | succ count =>
      rw [cut]
      split <;> exact List.cons_ne_nil _ _

theorem flatten_compressed (content : Content) :
    content.compressed.flatten = Zlib.compress (content.grids.flatMap Scanline.unfiltered) :=
  flatten_cut _ _

theorem length_of_mem_compressed {content : Content} {part : Bytes}
    (member : part ∈ content.compressed) : part.length < 2 ^ 32 := by
  have few := Nat.lt_mul_div_succ
    (Zlib.compress (content.grids.flatMap Scanline.unfiltered)).length
    (show 0 < pieceLimit by decide)
  exact Nat.lt_of_le_of_lt (length_of_mem_cut (Nat.le_of_lt few) member) (by decide)

/-- The chunks between the header and the pixels. -/
def colorChunks (content : Content) : Bytes :=
  ((content.palette.map (Chunk.mk Chunk.palette)).toList ++
    (content.transparency.map (Chunk.mk Chunk.transparency)).toList).flatMap Chunk.toBytes

/-- The chunks from the pixels to the end. -/
def pixelChunks (content : Content) : Bytes :=
  (content.compressed.map (Chunk.mk Chunk.content) ++
    [Chunk.mk Chunk.ending []]).flatMap Chunk.toBytes

theorem toBytes_eq (content : Content) :
    content.toBytes = signature ++ (Chunk.toBytes ⟨Chunk.header, content.header.toBytes⟩ ++
      (content.colorChunks ++ content.pixelChunks)) := by
  simp [toBytes, toChunks, colorChunks, pixelChunks]

/-- A reader that takes a step for each chunk has steps enough if it has one for each byte. -/
theorem length_compressed_add_three_le (content : Content) :
    content.compressed.length + 3 ≤ content.toBytes.length := by
  have many := Chunk.length_le_length_toBytes
    (content.compressed.map (Chunk.mk Chunk.content) ++ [Chunk.mk Chunk.ending []])
  rw [List.length_append, List.length_map, List.length_singleton] at many
  have eight : signature.length = 8 := rfl
  rw [toBytes_eq, List.length_append, List.length_append, List.length_append, eight, pixelChunks]
  omega

/-- The palette and transparency chunks are all there is before the pixels. -/
theorem read_colorChunks {content : Content} (plain : content.Plain) (count : Nat) {part : Bytes}
    (small : part.length < 2 ^ 32) (rest : Bytes) :
    Preamble.empty.read content.header (count + 3)
      (content.colorChunks ++ (Chunk.toBytes ⟨Chunk.content, part⟩ ++ rest)) =
      some (⟨content.palette, content.transparency, false, 0⟩,
        Chunk.toBytes ⟨Chunk.content, part⟩ ++ rest) := by
  have accepts := plain.transparency
  rw [colorChunks, List.flatMap_append, List.append_assoc]
  cases palette : content.palette with
  | none =>
      rw [palette] at accepts
      exact Preamble.read_transparency_content rfl accepts small rest
  | some colors =>
      rw [palette] at accepts
      obtain ⟨least, most⟩ := plain.palette colors palette
      rw [Option.map_some, Option.toList_some, List.flatMap_singleton,
        Preamble.read_palette least most rfl]
      exact Preamble.read_transparency_content rfl accepts small rest

theorem read_preamble {content : Content} (plain : content.Plain) :
    Preamble.empty.read content.header content.toBytes.length
        (content.colorChunks ++ content.pixelChunks) =
      some (⟨content.palette, content.transparency, false, 0⟩, content.pixelChunks) := by
  obtain ⟨part, parts, cut⟩ : ∃ part parts, content.compressed = part :: parts :=
    List.exists_cons_of_ne_nil (cut_ne_nil _ _)
  have member : part ∈ content.compressed := by
    rw [cut]
    exact List.mem_cons_self
  have first : content.pixelChunks = Chunk.toBytes ⟨Chunk.content, part⟩ ++
      (parts.map (Chunk.mk Chunk.content) ++
        [Chunk.mk Chunk.ending []]).flatMap Chunk.toBytes := by
    rw [pixelChunks, cut, List.map_cons, List.cons_append, List.flatMap_cons]
  have three : 3 ≤ content.toBytes.length :=
    Nat.le_trans (Nat.le_add_left 3 _) content.length_compressed_add_three_le
  obtain ⟨count, steps⟩ := Nat.exists_eq_add_of_le' three
  rw [steps, first]
  exact read_colorChunks plain count (length_of_mem_compressed member) _

theorem pieces?_pixelChunks (content : Content) :
    pieces? content.toBytes.length content.pixelChunks = some content.compressed := by
  apply pieces?_chunks
  · intro part member
    exact length_of_mem_compressed member
  · have := content.length_compressed_add_three_le
    omega

/-- There is room for the rows of a picture in one grid and for nothing else. -/
theorem size_of_whole {header : Header} (whole : header.interlaced = false) :
    size header = header.height.toNat * (1 + header.rowBytes header.width.toNat) ∧
      room header = size header := by
  have grid : passes header = [.whole] := by simp [passes, whole]
  constructor
  · simp [size, sizeOf, grid, Pass.whole, Pass.rows, Pass.columns, Pass.count]
  · simp [room, whole]

/-- The rows of the one grid are found again. -/
theorem grids?_unfiltered {content : Content} (plain : content.Plain) :
    grids? content.header (passes content.header)
      (content.grids.flatMap Scanline.unfiltered) = some content.grids := by
  obtain ⟨rows, grids, height, sizes⟩ := plain.rows
  have grid : passes content.header = [.whole] := by simp [passes, plain.whole]
  have columns : Pass.whole.columns content.header.width.toNat = content.header.width.toNat := by
    simp [Pass.columns, Pass.whole, Pass.count]
  have lines : Pass.whole.rows content.header.height.toNat = rows.length := by
    simp [Pass.rows, Pass.whole, Pass.count, height]
  have read := Scanline.rows?_unfiltered ((content.header.pixelBits + 7) / 8) [] sizes []
  rw [List.append_nil] at read
  simp only [grid, grids, List.flatMap_singleton, grids?, columns, lines, read, bind, Option.bind]
  rfl

/-- The pixels of a file are in its chunks, in pieces that can be told apart. -/
theorem decompressTo?_compressed {content : Content} (plain : content.Plain) :
    Zlib.decompressTo? (size content.header) (room content.header) content.compressed =
      some (content.grids.flatMap Scanline.unfiltered) := by
  obtain ⟨rows, grids, height, sizes⟩ := plain.rows
  obtain ⟨area, full⟩ := size_of_whole plain.whole
  have length : size content.header = (content.grids.flatMap Scanline.unfiltered).length := by
    rw [area, grids, List.flatMap_singleton, Scanline.length_unfiltered sizes, height]
  rw [full, length]
  exact Zlib.decompressTo?_compress (flatten_compressed content)

/-- What is written is what is read. -/
theorem ofBytes?_toBytes {content : Content} (plain : content.Plain) :
    ofBytes? content.toBytes = some content := by
  let head : Chunk := ⟨Chunk.header, content.header.toBytes⟩
  have sound : head.Sound := ⟨rfl, show 13 < 2 ^ 32 by decide⟩
  have start : content.toBytes.take signature.length = signature := by
    rw [toBytes_eq, List.take_left]
  have after : content.toBytes.drop signature.length =
      head.toBytes ++ (content.colorChunks ++ content.pixelChunks) := by
    rw [toBytes_eq, List.drop_left]
  have header := Header.ofBytes?_toBytes plain.width plain.height plain.bits
  have colored : (content.header.kind = .indexed && content.palette.isNone) = false := by
    by_cases indexed : content.header.kind = .indexed
    · rw [← Option.not_isSome, plain.indexed indexed]
      simp
    · simp [indexed]
  simp only [ofBytes?, start, after, Chunk.take?_toBytes sound, header, read_preamble plain,
    pieces?_pixelChunks, colored, decompressTo?_compressed plain, grids?_unfiltered plain, bind,
    Option.bind, head]
  rfl

end Content

end ResourcePack.Png
