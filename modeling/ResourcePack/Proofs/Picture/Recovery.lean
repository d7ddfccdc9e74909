import Mathlib
import ResourcePack.Proofs.Picture.Conversion
import ResourcePack.Proofs.Png.InPlace
import ResourcePack.Proofs.Png.RowBits

/-!
# A quantized picture is in its file

Size, depth and samples of a quantized picture, and what the samples mean, are all in the
content of its file. Here is a reader for them. It goes by the chunks and does not look for
the colours of pixels, so it can tell pictures apart that show the same.
-/

namespace ResourcePack

namespace Palette

/-- Colours from a palette chunk, three bytes for each. -/
def triples? : Bytes → Option (List (UInt8 × UInt8 × UInt8))
  | [] => some []
  | r :: g :: b :: rest => (triples? rest).map ((r, g, b) :: ·)
  | _ => none

/-- The palette that two chunks describe. If opacities are stored, each entry has one. -/
def ofChunks? (colors : Bytes) : Option Bytes → Option Palette
  | none => (triples? colors).map .rgb
  | some opacities => do
    let entries ← triples? colors
    if entries.length = opacities.length then
      return .rgba (List.zipWith (fun (r, g, b) a => ⟨r, g, b, a⟩) entries opacities)
    else none

theorem triples?_flatMap (entries : List (UInt8 × UInt8 × UInt8)) :
    triples? (entries.flatMap fun (r, g, b) => [r, g, b]) = some entries := by
  induction entries with
  | nil => rfl
  | cons entry entries ih =>
      obtain ⟨r, g, b⟩ := entry
      rw [List.flatMap_cons]
      simp only [List.cons_append, List.nil_append, triples?, ih, Option.map_some]

theorem ofChunks?_colorBytes (palette : Palette) :
    ofChunks? palette.colorBytes palette.opacityBytes? = some palette := by
  cases palette with
  | rgb entries =>
      rw [colorBytes, opacityBytes?, ofChunks?, triples?_flatMap, Option.map_some]
  | rgba entries =>
      have colors := triples?_flatMap (entries.map fun c => (c.r, c.g, c.b))
      rw [List.flatMap_map] at colors
      have whole : List.zipWith (fun (r, g, b) a => (⟨r, g, b, a⟩ : Color))
          (entries.map fun c => (c.r, c.g, c.b)) (entries.map Color.a) = entries := by
        rw [List.zipWith_map, List.zipWith_self]
        exact List.map_id entries
      simp only [colorBytes, opacityBytes?, ofChunks?, colors, bind, Option.bind,
        List.length_map, if_true, whole]
      rfl

end Palette

namespace Shading

/-- What samples mean, from the kind of pixels and the two chunks that go with it. -/
def ofChunks? : Png.PixelKind → Option Bytes → Option Bytes → Option Shading
  | .grey, none, none => some (.grey none)
  | .grey, none, some [0, level] => some (.grey (some level))
  | .indexed, some colors, opacities => (Palette.ofChunks? colors opacities).map .indexed
  | _, _, _ => none

end Shading

namespace Quantized

/-- The picture in the content of a file. Padding at the end of a row is not looked at. -/
def ofContent? (content : Png.Content) : Option Quantized := do
  let depth ← (Depth.ofBits (.ofNat content.header.bits)).toOption
  let shading ← Shading.ofChunks? content.header.kind content.palette content.transparency
  match content.grids with
  | [rows] =>
    let width := content.header.width.toNat
    return { width := content.header.width, height := content.header.height, depth, shading
             pixels := rows.flatMap fun row =>
               ((Png.Scanline.unpack depth.bits row).take width).map .ofNat }
  | _ => none

end Quantized

namespace Png.Content

section Rows

variable {depth : Depth} {width height : Nat} {pixels : List UInt8}

/-- Every row of a file has the bits of its samples. -/
theorem spells_packedRows (positive : 0 < width) (all : pixels.length = width * height)
    (small : ∀ value ∈ pixels, value.toNat < depth.size) :
    List.Forall₂ (Scanline.Spells depth) (packedRows width depth.bits height pixels)
      (Scanline.chunks width pixels) := by
  obtain ⟨-, sizes⟩ := Scanline.length_chunks positive all
  rw [Scanline.packedRows_eq positive depth.bits all, List.forall₂_map_left_iff,
    List.forall₂_same]
  intro samples member
  have spells := Scanline.spells_pack depth fun _ among =>
    small _ (Scanline.mem_of_mem_chunks positive member among)
  rwa [sizes samples member] at spells

/-- Samples of pixels are read as they were packed. -/
theorem flatMap_unpack_packedRows (positive : 0 < width) (all : pixels.length = width * height)
    (small : ∀ value ∈ pixels, value.toNat < depth.size) :
    (packedRows width depth.bits height pixels).flatMap
      (fun row => ((Scanline.unpack depth.bits row).take width).map UInt8.ofNat) = pixels := by
  obtain ⟨-, sizes⟩ := Scanline.length_chunks positive all
  have kept : ∀ samples ∈ Scanline.chunks width pixels,
      ((Scanline.unpack depth.bits
        (Scanline.pack depth.bits ((width * depth.bits + 7) / 8) samples)).take width).map
          UInt8.ofNat = samples := by
    intro samples member
    have row := Scanline.take_unpack_pack depth fun _ among =>
      small _ (Scanline.mem_of_mem_chunks positive member among)
    rw [sizes samples member] at row
    rw [row, List.map_map]
    simp [Function.comp_def]
  rw [Scanline.packedRows_eq positive depth.bits all, List.flatMap_map,
    List.flatMap_congr kept, List.flatMap_id']
  exact Scanline.flatten_chunks positive pixels

end Rows

/-- The content of a picture is enough to tell which picture it is. -/
theorem ofContent?_ofQuantized {picture : Quantized} {content : Content}
    (made : ofQuantized picture = .ok content)
    (all : picture.pixels.length = picture.width.toNat * picture.height.toNat)
    (small : ∀ value ∈ picture.pixels, value.toNat < picture.depth.size) :
    Quantized.ofContent? content = some picture := by
  obtain ⟨wide, -, shape⟩ := ofQuantized_cases made
  have positive : 0 < picture.width.toNat :=
    Nat.pos_of_ne_zero fun none => wide (UInt32.toNat_inj.mp none)
  have pixels := flatMap_unpack_packedRows positive all small
  obtain ⟨width, height, depth, shading, values⟩ := picture
  obtain ⟨transparent, rfl, rfl⟩ | ⟨palette, rfl, rfl⟩ := shape
  · cases transparent <;>
      simp only [Quantized.ofContent?, Depth.ofBits_bits, Shading.ofChunks?, pixels, bind,
        Option.bind, Except.toOption, Option.map] <;> rfl
  · simp only [Quantized.ofContent?, Depth.ofBits_bits, Shading.ofChunks?,
      palette.ofChunks?_colorBytes, pixels, bind, Option.bind, Except.toOption, Option.map]
    rfl

end Png.Content

namespace Png

/-- A file that is written says all about its picture. What grey, transparent level and palette
it was made from is read back, and so are its pixels, whose bits are all that is in the rows but
for zeros at the end of each. Packing the rows in place gives them too and never goes wrong. -/
theorem encoded_picture_reads_back (width height : UInt32) (depth : Depth) (grey : Bool)
    (transparent : Option UInt8) (palette : Option Palette) (pixels : List UInt8)
    (wide : 0 < width) (high : 0 < height)
    (all : pixels.length = width.toNat * height.toNat)
    (small : ∀ value ∈ pixels, value.toNat < 2 ^ depth.bits)
    (parts : grey = true ∧ palette = none ∨
      grey = false ∧ transparent = none ∧ ∃ entries, palette = some entries ∧
        1 ≤ entries.size ∧ entries.size ≤ 2 ^ depth.bits) :
    let picture : Quantized := ⟨width, height, depth, .ofParts grey transparent palette, pixels⟩
    ∃ file content rows, encode picture = .ok file ∧ Content.ofBytes? file = some content ∧
      content.header = ⟨width, height, if grey then .grey else .indexed, depth.bits, false⟩ ∧
      content.grids = [rows] ∧ rows.length = height.toNat ∧
      (∀ row ∈ rows, row.length = (width.toNat * depth.bits + 7) / 8) ∧
      List.Forall₂ (Scanline.Spells depth) rows (Scanline.chunks width.toNat pixels) ∧
      Scanline.packAt depth.bits width.toNat height.toNat pixels = .ok rows.flatten ∧
      Quantized.ofContent? content = some picture ∧ picture.shading.isGrey = grey ∧
      picture.shading.transparent? = transparent ∧ picture.shading.palette? = palette := by
  intro picture
  have positive : 0 < width.toNat := UInt32.lt_iff_toNat_lt.mp wide
  rw [← Depth.size_eq] at small parts
  have fit : depth.size ≤ 256 := by cases depth <;> decide
  have kept : picture.shading.isGrey = grey ∧ picture.shading.transparent? = transparent ∧
      picture.shading.palette? = palette := by
    obtain ⟨rfl, rfl⟩ | ⟨rfl, rfl, entries, rfl, -⟩ := parts <;> exact ⟨rfl, rfl, rfl⟩
  have sizes : ∀ entries, picture.shading = .indexed entries →
      1 ≤ entries.size ∧ entries.size ≤ 256 := by
    intro entries indexed
    obtain ⟨rfl, rfl⟩ | ⟨rfl, rfl, _, rfl, least, most⟩ := parts
    · cases indexed
    · cases indexed
      exact ⟨least, Nat.le_trans most fit⟩
  obtain ⟨content, made⟩ : ∃ content, Content.ofQuantized picture = .ok content :=
    Content.exists_ofQuantized (UInt32.pos_iff_ne_zero.mp wide) (UInt32.pos_iff_ne_zero.mp high)
      all
  have read := Content.ofBytes?_toBytes (Content.plain_ofQuantized made sizes)
  obtain ⟨header, grids⟩ := Content.header_ofQuantized made
  rw [kept.1] at header
  refine ⟨content.toBytes, content, _, ?_, read, header, grids, Content.length_packedRows ..,
    fun _ => Content.length_of_mem_packedRows, Content.spells_packedRows positive all small, ?_,
    Content.ofContent?_ofQuantized made all small, kept⟩
  · rw [encode, made]
    rfl
  · exact Scanline.packAt_eq depth positive width.toNat_lt height.toNat_lt all

/-- Five columns of two bits take two bytes, the second of which is padding but for its first
two bits. -/
theorem ten_indices_read_back :
    let palette : Palette := .rgba [⟨255, 0, 0, 255⟩, .transparent, .grey 85]
    let picture : Quantized := ⟨5, 2, .two, .indexed palette, [0, 1, 2, 2, 1, 1, 0, 0, 2, 2]⟩
    ∃ file content rows, encode picture = .ok file ∧ Content.ofBytes? file = some content ∧
      content.grids = [rows] ∧ rows.flatten = [0b00011010, 0b01000000, 0b01000010, 0b10000000] ∧
      Quantized.ofContent? content = some picture := by
  intro palette picture
  obtain ⟨file, content, rows, encoded, read, -, grids, -, -, -, packed, back, -⟩ :=
    encoded_picture_reads_back 5 2 .two false none (some palette) picture.pixels (by decide)
      (by decide) (by decide) (by simp [picture, Depth.bits])
      (.inr ⟨rfl, rfl, palette, rfl, by decide, by decide⟩)
  have filled := Scanline.packAt_eq .two (show 0 < UInt32.toNat 5 by decide) (UInt32.toNat_lt 5)
    (UInt32.toNat_lt 2) (show picture.pixels.length = UInt32.toNat 5 * UInt32.toNat 2 by decide)
  exact ⟨file, content, rows, encoded, read, grids, Except.ok.inj (packed.symm.trans filled), back⟩

end Png

end ResourcePack
