import Mathlib
import ResourcePack.Picture.Codec
import ResourcePack.Proofs.Picture.Quantized
import ResourcePack.Proofs.Png.RoundTrip

/-!
# Conversion keeps the reduced picture

The file that a conversion makes is read as the reduced picture. What a reader makes of a
grey level or an index is what the level or index was chosen for. A grey file has no place
for the colour of a pixel one cannot see, so only its opacity is kept.
-/

namespace ResourcePack

namespace Palette

/-- The bytes of a palette chunk are those of its colours, opaque or not. -/
theorem colorBytes_eq (palette : Palette) :
    palette.colorBytes = palette.colors.flatMap fun c => [c.r, c.g, c.b] := by
  cases palette with
  | rgb entries => rw [colorBytes, colors, List.flatMap_map]
  | rgba entries => rfl

theorem length_colorBytes (palette : Palette) :
    palette.colorBytes.length = 3 * palette.size := by
  cases palette <;> simp [colorBytes, size, Nat.mul_comm]

theorem length_colors (palette : Palette) : palette.colors.length = palette.size := by
  cases palette <;> simp [colors, size]

end Palette

namespace Png.Content

theorem paletteColors_go (colors : List Color) (rest : Bytes) :
    paletteColors.go (colors.flatMap fun c => [c.r, c.g, c.b]) (colors.map Color.a ++ rest) =
      colors := by
  induction colors with
  | nil => simp [paletteColors.go]
  | cons c colors ih => simp [paletteColors.go, ih]

/-- Missing opacities are those of opaque colours. -/
theorem paletteColors_chunks (palette : Palette) :
    paletteColors palette.colorBytes (palette.opacityBytes?.getD []) = palette.colors := by
  have count : palette.colorBytes.length / 3 = palette.colors.length := by
    rw [palette.length_colorBytes, palette.length_colors]
    omega
  have whole := paletteColors_go palette.colors []
  rw [List.append_nil, ← palette.colorBytes_eq] at whole
  rw [paletteColors, count]
  cases palette with
  | rgb entries =>
      have solid : (Palette.rgb entries).colors.map Color.a =
          List.replicate (Palette.rgb entries).colors.length 255 := by
        simp [Palette.colors, Function.comp_def]
      rw [solid] at whole
      simpa [Palette.opacityBytes?] using whole
  | rgba entries =>
      simpa [Palette.opacityBytes?, Palette.colors] using whole

/-- What the file of a picture that can be written says, one way or the other. -/
theorem ofQuantized_cases {picture : Quantized} {content : Content}
    (made : ofQuantized picture = .ok content) :
    picture.width ≠ 0 ∧ picture.height ≠ 0 ∧
      ((∃ transparent, picture.shading = .grey transparent ∧
        content = {
          header := ⟨picture.width, picture.height, .grey, picture.depth.bits, false⟩
          palette := none
          transparency := transparent.map fun level => [0, level]
          grids := [packedRows picture.width.toNat picture.depth.bits picture.height.toNat
            picture.pixels] }) ∨
      ∃ palette, picture.shading = .indexed palette ∧
        content = {
          header := ⟨picture.width, picture.height, .indexed, picture.depth.bits, false⟩
          palette := some palette.colorBytes
          transparency := palette.opacityBytes?
          grids := [packedRows picture.width.toNat picture.depth.bits picture.height.toNat
            picture.pixels] }) := by
  simp only [ofQuantized] at made
  split at made
  · cases made
  · rename_i any
    split at made
    · cases made
    · refine ⟨?_, ?_, ?_⟩
      · rintro none
        exact any (.inl (by rw [none]; rfl))
      · rintro none
        exact any (.inr (by rw [none]; rfl))
      · cases shading : picture.shading with
        | grey transparent =>
            rw [shading] at made
            exact .inl ⟨transparent, rfl, (Except.ok.inj made).symm⟩
        | indexed palette =>
            rw [shading] at made
            exact .inr ⟨palette, rfl, (Except.ok.inj made).symm⟩

/-- The kind of pixels in the header tells grey levels from indices. -/
theorem header_ofQuantized {picture : Quantized} {content : Content}
    (made : ofQuantized picture = .ok content) :
    content.header = ⟨picture.width, picture.height,
        if picture.shading.isGrey then .grey else .indexed, picture.depth.bits, false⟩ ∧
      content.grids = [packedRows picture.width.toNat picture.depth.bits picture.height.toNat
        picture.pixels] := by
  obtain ⟨-, -, ⟨transparent, grey, rfl⟩ | ⟨palette, indexed, rfl⟩⟩ := ofQuantized_cases made
  · rw [grey]
    exact ⟨rfl, rfl⟩
  · rw [indexed]
    exact ⟨rfl, rfl⟩

/-- A picture with pixels, and with all of them, can be written. -/
theorem exists_ofQuantized {picture : Quantized} (wide : picture.width ≠ 0)
    (high : picture.height ≠ 0)
    (all : picture.pixels.length = picture.width.toNat * picture.height.toNat) :
    ∃ content, ofQuantized picture = .ok content := by
  have any : ¬ (picture.width.toNat = 0 ∨ picture.height.toNat = 0) := by
    rintro (none | none)
    · exact wide (UInt32.toNat_inj.mp none)
    · exact high (UInt32.toNat_inj.mp none)
  have whole : ¬ (picture.depth = .eight ∧
      picture.pixels.length ≠ picture.width.toNat * picture.height.toNat) :=
    fun missing => missing.2 all
  exact ⟨_, by rw [ofQuantized, if_neg any, if_neg whole]⟩

theorem bits_mem_depths (depth : Depth) :
    depth.bits ∈ PixelKind.grey.depths ∧ depth.bits ∈ PixelKind.indexed.depths := by
  cases depth <;> decide

/-- A reader accepts the file of a picture whose palette is neither empty nor too long. -/
theorem plain_ofQuantized {picture : Quantized} {content : Content}
    (made : ofQuantized picture = .ok content)
    (sizes : ∀ palette, picture.shading = .indexed palette →
      1 ≤ palette.size ∧ palette.size ≤ 256) : content.Plain := by
  have rows (kind : PixelKind) (single : kind.channels = 1) :
      ∃ rows, [packedRows picture.width.toNat picture.depth.bits picture.height.toNat
        picture.pixels] = [rows] ∧ rows.length = picture.height.toNat ∧ ∀ row ∈ rows, row.length =
          Header.rowBytes ⟨picture.width, picture.height, kind, picture.depth.bits, false⟩
            picture.width.toNat := by
    refine ⟨_, rfl, length_packedRows .., ?_⟩
    intro row member
    rw [length_of_mem_packedRows member, Header.rowBytes, Header.pixelBits, single, Nat.one_mul]
  obtain ⟨wide, high, ⟨transparent, -, rfl⟩ | ⟨palette, indexed, rfl⟩⟩ := ofQuantized_cases made
  · refine ⟨wide, high, (bits_mem_depths _).1, rfl, ?_, ?_, ?_, rows .grey rfl⟩
    · rintro data ⟨⟩
    · intro data marked
      obtain ⟨level, rfl, rfl⟩ := Option.map_eq_some_iff.mp marked
      exact ⟨show 1 ≤ 2 by omega, show 2 ≤ 256 by omega, rfl⟩
    · rintro ⟨⟩
  · obtain ⟨least, most⟩ := sizes palette indexed
    refine ⟨wide, high, (bits_mem_depths _).2, rfl, ?_, ?_, ?_, rows .indexed rfl⟩
    · rintro data ⟨⟩
      rw [palette.length_colorBytes]
      omega
    · intro data stored
      cases palette with
      | rgb entries => cases stored
      | rgba entries =>
          cases stored
          rw [List.length_map]
          exact ⟨least, most, rfl⟩
    · intro _
      rfl

end Png.Content

namespace Quantized.Shows

open Png Png.Content

variable {picture : Quantized} {width height : UInt32} {colors : List Color} {content : Content}

/-- The palette of a picture is neither empty nor too long for its chunk. -/
theorem size_palette (shows : picture.Shows width height colors) (any : colors ≠ [])
    {palette : Palette} (indexed : picture.shading = .indexed palette) :
    1 ≤ palette.size ∧ palette.size ≤ 256 := by
  have shading := shows.shading
  rw [indexed] at shading
  have most : 2 ^ picture.depth.bits ≤ 256 := by cases picture.depth <;> decide
  refine ⟨?_, Nat.le_trans shading.size_le most⟩
  obtain ⟨c, others, rfl⟩ := List.exists_cons_of_ne_nil any
  obtain ⟨value, values, position, -, -⟩ := List.forall₂_cons_right_iff.mp shading.reads
  obtain ⟨below, -⟩ := List.getElem?_eq_some_iff.mp position
  rw [palette.length_colors] at below
  exact Nat.succ_le_of_lt (Nat.zero_lt_of_lt below)

/-- A picture that shows anything makes a file that a reader accepts. -/
theorem plain (shows : picture.Shows width height colors) (any : colors ≠ [])
    (made : ofQuantized picture = .ok content) : content.Plain :=
  plain_ofQuantized made fun _ => shows.size_palette any

/-- Reading gives a colour for each value, row by row. -/
theorem pixels_content (shows : picture.Shows width height colors)
    (all : colors.length = width.toNat * height.toNat)
    (made : ofQuantized picture = .ok content) :
    content.pixels = picture.pixels.map fun value => content.meaning.color [value.toNat] := by
  have small := shows.values
  rw [← Depth.size_eq] at small
  rw [← shows.length_pixels, ← shows.width, ← shows.height] at all
  obtain ⟨-, -, ⟨transparent, -, rfl⟩ | ⟨palette, -, rfl⟩⟩ := ofQuantized_cases made
  · simp only [Content.pixels, Bool.false_eq_true, if_false, List.flatten_singleton]
    exact flatMap_packedRows rfl rfl all small
  · simp only [Content.pixels, Bool.false_eq_true, if_false, List.flatten_singleton]
    exact flatMap_packedRows rfl rfl all small

end Quantized.Shows

namespace Png.Content

/-- A transparency chunk for grey levels names the level itself. -/
theorem color_grey {header : Header} (grey : header.kind = .grey) {depth : Depth}
    (bits : header.bits = depth.bits) (transparent : Option UInt8) (grids : List (List Bytes))
    (value : UInt8) :
    let shade := stretch depth.bits value.toNat
    (meaning ⟨header, none, transparent.map fun level => [0, level], grids⟩).color
        [value.toNat] =
      ⟨shade, shade, shade, if transparent = some value then 0 else 255⟩ := by
  intro shade
  have key : (transparent.map fun level => [0, level]).bind (key? header) =
      some [value.toNat] ↔ transparent = some value := by
    cases transparent with
    | none => simp
    | some level =>
        have byte : level.toNat % 256 = level.toNat := Nat.mod_eq_of_lt level.toNat_lt
        simp [key?, bits, depth.bits_ne_sixteen, Scanline.pairs, grey, PixelKind.channels, byte,
          UInt8.toNat_inj]
  simp only [Meaning.color, meaning, grey, Meaning.opacity, bits, key, shade]

theorem color_indexed {header : Header} (indexed : header.kind = .indexed) (palette : Palette)
    (grids : List (List Bytes)) {value : UInt8} {c : Color}
    (position : palette.colors[value.toNat]? = some c) :
    (meaning ⟨header, some palette.colorBytes, palette.opacityBytes?, grids⟩).color
      [value.toNat] = c := by
  simp [Meaning.color, meaning, indexed, paletteColors_chunks, Array.getD_eq_getD_getElem?,
    position]

end Png.Content

namespace Quantized.Shows

open Png Png.Content

variable {picture : Quantized} {width height : UInt32} {colors : List Color} {content : Content}

/-- What is read has the opacity of each colour, and the colour itself unless a grey file
cannot hold it. -/
theorem pixels_keep (shows : picture.Shows width height colors)
    (all : colors.length = width.toNat * height.toNat)
    (made : ofQuantized picture = .ok content) :
    List.Forall₂ (fun shown c => shown.a = c.a ∧
      (c.a ≠ 0 ∨ content.header.kind = .indexed → shown = c)) content.pixels colors := by
  have shading := shows.shading
  rw [shows.pixels_content all made, List.forall₂_map_left_iff]
  obtain ⟨-, -, ⟨transparent, grey, rfl⟩ | ⟨palette, indexed, rfl⟩⟩ := ofQuantized_cases made
  · rw [grey] at shading
    apply shading.reads.imp
    intro value c reads
    rw [color_grey rfl rfl]
    by_cases clear : c.a = 0
    · rw [if_pos clear] at reads
      rw [if_pos reads]
      refine ⟨clear.symm, ?_⟩
      rintro (visible | indexed)
      · exact absurd clear visible
      · cases indexed
    · rw [if_neg clear] at reads
      obtain ⟨apart, shade, level⟩ := reads
      have byte : stretch picture.depth.bits value.toNat = c.r := by
        rw [stretch, if_neg (Depth.bits_ne_sixteen _), Depth.one_shiftLeft_bits, Depth.size_eq,
          level, UInt8.ofNat_toNat]
      rw [if_neg apart, byte, shade]
      refine ⟨rfl, ?_⟩
      intro _
      rfl
  · rw [indexed] at shading
    apply shading.reads.imp
    intro value c position
    rw [color_indexed rfl palette _ position]
    refine ⟨rfl, ?_⟩
    intro _
    rfl

/-- The file of a picture is read as what the picture says. -/
theorem exists_content (shows : picture.Shows width height colors)
    (all : colors.length = width.toNat * height.toNat) {file : Bytes}
    (encoded : Png.encode picture = .ok file) :
    ∃ content, ofQuantized picture = .ok content ∧ Content.ofBytes? file = some content := by
  obtain ⟨content, made, rfl⟩ := Outcome.map_eq_ok.mp encoded
  obtain ⟨wide, high, -⟩ := ofQuantized_cases made
  have any : colors ≠ [] := by
    rintro rfl
    rcases Nat.mul_eq_zero.mp all.symm with none | none
    · exact wide (shows.width.trans (UInt32.toNat_inj.mp none))
    · exact high (shows.height.trans (UInt32.toNat_inj.mp none))
  exact ⟨content, made, ofBytes?_toBytes (shows.plain any made)⟩

/-- The file of a picture is read as a raster of its size. -/
theorem decode_encode (shows : picture.Shows width height colors)
    (all : colors.length = width.toNat * height.toNat) {file : Bytes}
    (encoded : Png.encode picture = .ok file) :
    ∃ content shown, Content.ofBytes? file = some content ∧ Png.decode file = .ok shown ∧
      shown.width = width ∧ shown.height = height ∧
      List.Forall₂ (fun pixel c => pixel.a = c.a ∧
        (c.a ≠ 0 ∨ content.header.kind = .indexed → pixel = c)) shown.pixels colors := by
  obtain ⟨content, made, read⟩ := shows.exists_content all encoded
  obtain ⟨-, -, shape⟩ := ofQuantized_cases made
  have keeps := shows.pixels_keep all made
  have size : content.header.width = width ∧ content.header.height = height := by
    rw [← shows.width, ← shows.height]
    rcases shape with ⟨_, _, rfl⟩ | ⟨_, _, rfl⟩ <;> exact ⟨rfl, rfl⟩
  have full : content.pixels.length =
      content.header.width.toNat * content.header.height.toNat := by
    rw [keeps.length_eq, all, size.1, size.2]
  refine ⟨content, ⟨_, _, _, full⟩, read, ?_, size.1, size.2, keeps⟩
  simp only [decode, read, toRaster, Raster.ofPixels, dif_pos full]

end Quantized.Shows

namespace Codec

/-- Whatever file is converted to whatever device, the result is read as a picture of the
same size whose pixels are the reduced ones. -/
theorem convert_png_keeps_reduced (data : Bytes) (options : ConvertOptions) (file : Bytes)
    (converted : png.convert data options = .ok file) :
    ∃ raster shown content, png.decode data = .ok raster ∧ png.decode file = .ok shown ∧
      Png.Content.ofBytes? file = some content ∧
      shown.width = raster.width ∧ shown.height = raster.height ∧
      List.Forall₂ (fun pixel given =>
        let reduced := options.family.reduce options.method given
        pixel.a = reduced.a ∧
          (reduced.a ≠ 0 ∨ content.header.kind = .indexed → pixel = reduced))
        shown.pixels raster.pixels := by
  obtain ⟨raster, decoded, converted⟩ := Outcome.bind_eq_ok.mp converted
  obtain ⟨picture, quantized, encoded⟩ := Outcome.bind_eq_ok.mp converted
  have all : (raster.reduced options.family options.method).length =
      raster.width.toNat * raster.height.toNat := by
    rw [Raster.reduced, List.length_map, raster.length_pixels]
  obtain ⟨content, shown, read, decodes, width, height, keeps⟩ :=
    (Quantized.ofRaster_shows quantized).decode_encode all encoded
  exact ⟨raster, shown, content, decoded, decodes, read, width, height,
    List.forall₂_map_right_iff.mp keeps⟩

/-- What is written is decoded as what it says. -/
theorem decode_png_toBytes {content : Png.Content} (plain : content.Plain) :
    png.decode content.toBytes = content.toRaster := by
  change Png.decode content.toBytes = _
  rw [Png.decode, Png.Content.ofBytes?_toBytes plain]

/-- A file of a red pixel and one that can hardly be seen. -/
def redAndClear : Bytes :=
  Png.Content.toBytes ⟨⟨2, 1, .rgba, 8, false⟩, none, none, [[[250, 9, 0, 255, 7, 7, 7, 3]]]⟩

theorem decode_redAndClear :
    png.decode redAndClear = .ok ⟨2, 1, [⟨250, 9, 0, 255⟩, ⟨7, 7, 7, 3⟩], rfl⟩ :=
  decode_png_toBytes {
    width := by decide
    height := by decide
    bits := by decide
    whole := rfl
    palette := nofun
    transparency := nofun
    indexed := nofun
    rows := ⟨_, rfl, rfl, by decide⟩ }

theorem redAndClear_keeps_reduced :
    ∃ file shown red clear, png.convert redAndClear ⟨.pebble64, .nearest, none⟩ = .ok file ∧
      png.decode file = .ok shown ∧ shown.width = 2 ∧ shown.height = 1 ∧
      shown.pixels = [red, clear] ∧ red = ⟨255, 0, 0, 255⟩ ∧ clear.a = 0 := by
  have succeeds : (png.convert redAndClear ⟨.pebble64, .nearest, none⟩).isOk = true := by
    rw [convert, decode_redAndClear]
    decide
  obtain ⟨file, converted⟩ := Outcome.exists_of_isOk succeeds
  obtain ⟨raster, shown, _, decoded, decodes, -, width, height, keeps⟩ :=
    convert_png_keeps_reduced _ _ _ converted
  obtain rfl := Except.ok.inj (decode_redAndClear.symm.trans decoded)
  obtain ⟨red, others, ⟨-, red_eq⟩, keeps', pixels⟩ := List.forall₂_cons_right_iff.mp keeps
  obtain ⟨clear, rest, ⟨clear_a, -⟩, keeps'', rfl⟩ := List.forall₂_cons_right_iff.mp keeps'
  rw [List.forall₂_nil_right_iff.mp keeps''] at pixels
  exact ⟨file, shown, red, clear, converted, decodes, width, height, pixels,
    red_eq (.inl (by decide)), clear_a⟩

end Codec

end ResourcePack
