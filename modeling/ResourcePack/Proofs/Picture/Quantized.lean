import Mathlib
import ResourcePack.Proofs.Outcome
import ResourcePack.Proofs.Picture.FirstSeen
import ResourcePack.Proofs.Picture.Grey

/-!
# Quantized pictures read back as the reduced raster

A quantized picture is a list of bytes and a rule for reading them. Nothing in its making
checks that a position fits a byte, that a colour is found, or that the level for
transparency is not used by a grey. All of that follows from the number of distinct
reduced colours, which the device palette bounds and the chosen depth covers.
-/

namespace ResourcePack

namespace Raster

variable (raster : Raster) (family : Family) (method : Method)

theorem mem_colors_analyze {c : Color} :
    c ∈ (raster.analyze family method).colors ↔ c ∈ raster.reduced family method :=
  mem_firstSeen

theorem nodup_colors_analyze : (raster.analyze family method).colors.Nodup :=
  nodup_firstSeen _

theorem length_reduced :
    (raster.reduced family method).length = raster.width.toNat * raster.height.toNat := by
  rw [reduced, List.length_map, raster.length_pixels]

/-- A raster never has more reduced colours than its device. -/
theorem length_colors_analyze_le : (raster.analyze family method).colors.length ≤ 256 := by
  have device : (raster.analyze family method).colors ⊆ family.colors := by
    intro c hc
    obtain ⟨px, _, rfl⟩ := List.mem_map.mp ((mem_colors_analyze raster family method).mp hc)
    exact family.reduce_mem_colors method px
  have bound := ((nodup_colors_analyze raster family method).subperm device).length_le
  have few : family.colors.length ≤ 256 := by
    rw [family.length_colors]
    cases family <;> decide
  exact Nat.le_trans bound few

/-- Greys that come out of a reduction are device greys. -/
theorem greyish_colors_analyze
    (shades : ∀ c ∈ (raster.analyze family method).colors,
      c.isOpaqueGrey = true ∨ c = .transparent) :
    Greyish (raster.analyze family method).colors := by
  refine ⟨nodup_colors_analyze raster family method, ?_⟩
  intro c hc
  obtain ⟨px, _, rfl⟩ := List.mem_map.mp ((mem_colors_analyze raster family method).mp hc)
  rcases shades _ hc with opaqueGrey | clear
  · exact Or.inr ⟨_, family.r_reduce_mem_levels method px,
      (Color.isOpaqueGrey_iff _).mp opaqueGrey⟩
  · exact Or.inl clear

/-- What the choice of grey levels means. -/
theorem greyish_analyze (grey : (raster.analyze family method).isGrey = true) :
    Greyish (raster.analyze family method).colors ∧
      (raster.analyze family method).depth =
        Analysis.greyDepth (raster.analyze family method).colors := by
  have chosen := grey
  simp only [analyze, Analysis.ofColors, Bool.and_eq_true] at chosen
  refine ⟨greyish_colors_analyze raster family method ?_, ?_⟩
  · intro c hc
    simpa using List.all_eq_true.mp chosen.1 c hc
  · simp only [analyze, Analysis.ofColors, Bool.and_eq_true]
    exact if_pos chosen

/-- Whichever way pixels are stored, the depth of the analysis covers the colours. -/
theorem length_colors_analyze_le_size :
    (raster.analyze family method).colors.length ≤ (raster.analyze family method).depth.size := by
  by_cases grey : (raster.analyze family method).isGrey = true
  · obtain ⟨greyish, depth⟩ := greyish_analyze raster family method grey
    rw [depth]
    exact Analysis.length_le_size_greyDepth greyish
  · have depth : (raster.analyze family method).depth =
        .forColors (raster.analyze family method).colors.length := by
      simp only [analyze, Analysis.ofColors] at grey ⊢
      exact if_neg grey
    rw [depth]
    exact Depth.le_size_forColors (length_colors_analyze_le raster family method)

end Raster

namespace Analysis

/-- Leaving out opacities loses nothing if all colours are opaque. -/
theorem colors_palette {analysis : Analysis}
    (alpha : analysis.hasAlpha = analysis.colors.any (!·.isOpaque)) :
    analysis.palette.colors = analysis.colors := by
  unfold palette
  split
  · rfl
  · rename_i opaqueOnly
    rw [alpha] at opaqueOnly
    simp only [Palette.colors, List.map_map]
    refine (List.map_congr_left ?_).trans (List.map_id _)
    intro c hc
    have solid : c.a = 255 := by
      by_contra h
      exact opaqueOnly (List.any_eq_true.mpr ⟨c, hc, by simp [Color.isOpaque, h]⟩)
    obtain ⟨r, g, b, a⟩ := c
    cases solid
    rfl

theorem hasAlpha_ofColors_iff {colors : List Color} :
    (ofColors colors).hasAlpha = true ↔ ∃ c ∈ colors, c.a ≠ 255 := by
  simp only [ofColors, List.any_eq_true, Color.isOpaque, Bool.not_eq_true',
    decide_eq_false_iff_not, ne_eq]

theorem palette_eq_rgba_iff {analysis : Analysis} :
    (∃ entries, analysis.palette = .rgba entries) ↔ analysis.hasAlpha = true := by
  unfold palette
  split
  · simp [*]
  · simp [*]

theorem size_palette (analysis : Analysis) : analysis.palette.size = analysis.colors.length := by
  unfold palette
  split <;> simp [Palette.size]

/-- In a grey picture only full transparency is not opaque. -/
theorem hasAlpha_iff_transparent_mem {colors : List Color} (greyish : Greyish colors) :
    (ofColors colors).hasAlpha = true ↔ .transparent ∈ colors := by
  rw [hasAlpha_ofColors_iff]
  constructor
  · rintro ⟨c, hc, seeThrough⟩
    rcases greyish.shades c hc with rfl | ⟨level, _, rfl⟩
    · exact hc
    · exact absurd rfl seeThrough
  · intro clear
    exact ⟨_, clear, by decide⟩

/-- A level is kept for transparency exactly if some colour is not opaque. -/
structure Marks (analysis : Analysis) (depth : Depth) (transparent : Option UInt8) : Prop where
  isSome : transparent.isSome = analysis.hasAlpha
  free : ∀ level, transparent = some level → analysis.transparentLevel depth = .ok level

/-- A level that is kept is in range and is that of no grey. -/
theorem Marks.apart {colors : List Color} {depth : Depth} {level : UInt8}
    (marks : (ofColors colors).Marks depth (some level)) (greyish : Greyish colors)
    (chosen : greyDepth colors = depth) :
    level.toNat < depth.size ∧ ∀ shade, .grey shade ∈ colors → depth.scale shade ≠ level := by
  have clear : .transparent ∈ colors :=
    (hasAlpha_iff_transparent_mem greyish).mp (marks.isSome.symm.trans rfl)
  obtain ⟨other, found, small, distinct⟩ :=
    transparentLevel_greyDepth (ofColors colors) greyish chosen clear
  cases (marks.free level rfl).symm.trans found
  exact ⟨small, distinct⟩

end Analysis

/-- A palette and the positions of pixels in it show a list of colours, and nothing is in
the palette that the colours did not put there. -/
structure Palette.Indexes (palette : Palette) (depth : Depth) (values : List UInt8)
    (colors : List Color) : Prop where
  /-- Each pixel has a value of its own, the position of its colour. -/
  reads : List.Forall₂ (fun value c => palette.colors[value.toNat]? = some c) values colors
  distinct : palette.colors.Nodup
  used : ∀ i < palette.size, ∃ value ∈ values, value.toNat = i
  /-- A position is not used before all positions below it have been. -/
  ordered : ∀ (k : Nat) (value : UInt8) (i : Nat), values[k]? = some value → i < value.toNat →
    ∃ j < k, ∃ earlier, values[j]? = some earlier ∧ earlier.toNat = i
  size_le : palette.size ≤ 2 ^ depth.bits
  /-- Opacities are stored only where they matter. -/
  alpha : (∃ entries, palette = .rgba entries) ↔ ∃ c ∈ colors, c.a ≠ 255

/-- Grey levels show a list of colours. A pixel that is fully transparent has the level
kept for that, and any other one a level that stretches to its grey. -/
structure GreyLevels (transparent : Option UInt8) (depth : Depth) (values : List UInt8)
    (colors : List Color) : Prop where
  marked : transparent.isSome = true ↔ ∃ c ∈ colors, c.a = 0
  reads : List.Forall₂ (fun value c =>
    if c.a = 0 then transparent = some value
    else transparent ≠ some value ∧ c = .grey c.r ∧
      value.toNat * 255 / (2 ^ depth.bits - 1) = c.r.toNat) values colors

/-- A quantized picture of a given size shows a list of colours. -/
structure Quantized.Shows (image : Quantized) (width height : UInt32) (colors : List Color) :
    Prop where
  width : image.width = width
  height : image.height = height
  values : ∀ value ∈ image.pixels, value.toNat < 2 ^ image.depth.bits
  shading : match image.shading with
    | .indexed palette => palette.Indexes image.depth image.pixels colors
    | .grey transparent => GreyLevels transparent image.depth image.pixels colors

namespace Quantized

/-- There is one value for each colour, however values are read. -/
theorem Shows.length_pixels {image : Quantized} {width height : UInt32} {colors : List Color}
    (shows : image.Shows width height colors) : image.pixels.length = colors.length := by
  have shading := shows.shading
  cases stored : image.shading with
  | indexed palette =>
      rw [stored] at shading
      exact shading.reads.length_eq
  | grey transparent =>
      rw [stored] at shading
      exact shading.reads.length_eq

theorem toNat_indexValue {colors : List Color} (small : colors.length ≤ 256) {c : Color}
    (hc : c ∈ colors) : (indexValue colors c).toNat = colors.idxOf c := by
  have position := List.idxOf_lt_length_of_mem hc
  rw [indexValue, if_pos hc]
  exact UInt8.toNat_ofNat_of_lt' (Nat.lt_of_lt_of_le position small)

/-- Positions in the list of distinct colours make a palette picture of any depth that
covers them. -/
theorem indexes_ofColors {reduced : List Color} {depth : Depth}
    (covers : (firstSeen reduced).length ≤ depth.size) :
    (Analysis.ofColors (firstSeen reduced)).palette.Indexes depth
      (reduced.map (indexValue (firstSeen reduced))) reduced := by
  have byte : depth.size ≤ 256 := by cases depth <;> decide
  have small : (firstSeen reduced).length ≤ 256 := Nat.le_trans covers byte
  have colors : (Analysis.ofColors (firstSeen reduced)).palette.colors = firstSeen reduced :=
    Analysis.colors_palette rfl
  have size : (Analysis.ofColors (firstSeen reduced)).palette.size = (firstSeen reduced).length :=
    Analysis.size_palette _
  have value {c : Color} (hc : c ∈ reduced) :
      (indexValue (firstSeen reduced) c).toNat = (firstSeen reduced).idxOf c :=
    toNat_indexValue small (mem_firstSeen.mpr hc)
  refine ⟨?_, ?_, ?_, ?_, ?_, ?_⟩
  · rw [List.forall₂_map_left_iff, List.forall₂_same]
    intro c hc
    rw [colors, value hc, List.getElem?_idxOf (mem_firstSeen.mpr hc)]
  · rw [colors]
    exact nodup_firstSeen reduced
  · intro i hi
    rw [size] at hi
    have occurs : (firstSeen reduced)[i] ∈ reduced := mem_firstSeen.mp (List.getElem_mem hi)
    refine ⟨_, List.mem_map_of_mem occurs, ?_⟩
    rw [value occurs, (nodup_firstSeen reduced).idxOf_getElem i hi]
  · intro k v i hk hi
    rw [List.getElem?_map, Option.map_eq_some_iff] at hk
    obtain ⟨c, hc, rfl⟩ := hk
    rw [value (List.mem_of_getElem? hc)] at hi
    obtain ⟨j, hj, earlier, occurs, there, position⟩ := exists_before_of_lt_idxOf hc hi
    refine ⟨j, hj, indexValue (firstSeen reduced) earlier, ?_, ?_⟩
    · rw [List.getElem?_map, there, Option.map_some]
    · rw [value occurs, position]
  · rw [size, ← Depth.size_eq]
    exact covers
  · rw [Analysis.palette_eq_rgba_iff, Analysis.hasAlpha_ofColors_iff]
    simp only [mem_firstSeen]

@[simp] theorem greyValue_transparent (depth : Depth) (level : UInt8) :
    greyValue depth (some level) .transparent = level := rfl

@[simp] theorem greyValue_grey (depth : Depth) (transparent : Option UInt8) (shade : UInt8) :
    greyValue depth transparent (.grey shade) = depth.scale shade := by
  cases transparent <;> rfl

/-- Grey levels show every grey exactly, and transparency by a level of its own. -/
theorem greyLevels_ofColors {reduced : List Color} {depth : Depth} {transparent : Option UInt8}
    (greyish : Greyish (firstSeen reduced))
    (chosen : Analysis.greyDepth (firstSeen reduced) = depth)
    (marks : (Analysis.ofColors (firstSeen reduced)).Marks depth transparent) :
    GreyLevels transparent depth (reduced.map (greyValue depth transparent)) reduced ∧
      ∀ value ∈ reduced.map (greyValue depth transparent), value.toNat < depth.size := by
  have marked : transparent.isSome = true ↔ .transparent ∈ reduced := by
    rw [marks.isSome, Analysis.hasAlpha_iff_transparent_mem greyish, mem_firstSeen]
  have reads : ∀ c ∈ reduced, (greyValue depth transparent c).toNat < depth.size ∧
      if c.a = 0 then transparent = some (greyValue depth transparent c)
      else transparent ≠ some (greyValue depth transparent c) ∧ c = .grey c.r ∧
        (greyValue depth transparent c).toNat * 255 / (2 ^ depth.bits - 1) = c.r.toNat := by
    intro c hc
    have listed : c ∈ firstSeen reduced := mem_firstSeen.mpr hc
    rcases greyish.shades c listed with rfl | ⟨shade, _, rfl⟩
    · obtain ⟨level, rfl⟩ := Option.isSome_iff_exists.mp (marked.mpr hc)
      rw [greyValue_transparent, if_pos (show Color.transparent.a = 0 from rfl)]
      exact ⟨(marks.apart greyish chosen).1, rfl⟩
    · rw [greyValue_grey, if_neg (Color.a_grey_ne_zero shade)]
      refine ⟨Depth.toNat_scale_lt depth shade, ?_, rfl,
        Analysis.stretch_scale_greyDepth greyish chosen listed⟩
      rintro rfl
      exact (marks.apart greyish chosen).2 shade listed rfl
  refine ⟨⟨?_, ?_⟩, ?_⟩
  · rw [marked]
    constructor
    · intro clear
      exact ⟨_, clear, rfl⟩
    · rintro ⟨c, hc, invisible⟩
      rcases greyish.shades c (mem_firstSeen.mpr hc) with rfl | ⟨shade, _, rfl⟩
      · exact hc
      · exact absurd invisible (Color.a_grey_ne_zero shade)
  · rw [List.forall₂_map_left_iff, List.forall₂_same]
    intro c hc
    exact (reads c hc).2
  · intro value hv
    obtain ⟨c, hc, rfl⟩ := List.mem_map.mp hv
    exact (reads c hc).1

/-- Everything that quantizing can do when it succeeds: keep grey levels at the depth they
were chosen for, with a level for transparency or without, or use positions at a depth
that is enough. -/
theorem ofRaster_cases {raster : Raster} {options : ConvertOptions} {image : Quantized}
    (quantized : ofRaster raster options = .ok image) :
    let analysis := raster.analyze options.family options.method
    let reduced := raster.reduced options.family options.method
    (analysis.isGrey = true ∧ ∃ transparent, analysis.Marks analysis.depth transparent ∧
      image = { width := raster.width, height := raster.height, depth := analysis.depth
                shading := .grey transparent
                pixels := reduced.map (greyValue analysis.depth transparent) }) ∨
    ∃ depth : Depth, analysis.depth.bits ≤ depth.bits ∧
      image = { width := raster.width, height := raster.height, depth
                shading := .indexed analysis.palette
                pixels := reduced.map (indexValue analysis.colors) } := by
  intro analysis reduced
  simp only [ofRaster] at quantized
  by_cases low : (options.depth.getD analysis.depth).bits < analysis.depth.bits
  · simp [analysis, low, bind, Except.bind, throw, throwThe, MonadExceptOf.throw] at quantized
  rw [if_neg low] at quantized
  by_cases grey : analysis.isGrey = true ∧ options.depth.getD analysis.depth = analysis.depth
  · obtain ⟨isGrey, kept⟩ := grey
    refine Or.inl ⟨isGrey, ?_⟩
    rw [if_pos (by simp [analysis, isGrey, kept])] at quantized
    by_cases alpha : analysis.hasAlpha = true
    · rw [if_pos alpha] at quantized
      obtain ⟨transparent, marked, made⟩ := Outcome.bind_eq_ok.mp quantized
      obtain ⟨level, free, rfl⟩ := Outcome.map_eq_ok.mp marked
      rw [kept] at free made
      refine ⟨some level, ⟨alpha.symm, ?_⟩, (Except.ok.inj made).symm⟩
      rintro _ ⟨⟩
      exact free
    · rw [if_neg alpha, kept] at quantized
      have solid : analysis.hasAlpha = false := Bool.eq_false_of_not_eq_true alpha
      refine ⟨none, ⟨solid.symm, ?_⟩, (Except.ok.inj quantized).symm⟩
      rintro _ ⟨⟩
  · refine Or.inr ⟨_, Nat.le_of_not_lt low, ?_⟩
    rw [if_neg (by simpa [analysis] using grey)] at quantized
    exact (Except.ok.inj quantized).symm

/-- Quantizing keeps the size and shows the reduced pixels, in either way of storing them. -/
theorem ofRaster_shows {raster : Raster} {options : ConvertOptions} {image : Quantized}
    (quantized : ofRaster raster options = .ok image) :
    image.Shows raster.width raster.height (raster.reduced options.family options.method) := by
  rcases ofRaster_cases quantized with ⟨grey, transparent, marks, rfl⟩ | ⟨depth, enough, rfl⟩
  · obtain ⟨greyish, chosen⟩ := raster.greyish_analyze options.family options.method grey
    obtain ⟨levels, small⟩ := greyLevels_ofColors greyish chosen.symm marks
    refine ⟨rfl, rfl, ?_, levels⟩
    rw [← Depth.size_eq]
    exact small
  · have covers := Nat.le_trans
      (raster.length_colors_analyze_le_size options.family options.method)
      (Depth.size_le_of_bits_le enough)
    have indexes := indexes_ofColors covers
    refine ⟨rfl, rfl, ?_, indexes⟩
    intro value hv
    obtain ⟨c, hc, rfl⟩ := List.mem_map.mp hv
    have listed : c ∈ (raster.analyze options.family options.method).colors :=
      (raster.mem_colors_analyze options.family options.method).mpr hc
    rw [toNat_indexValue (raster.length_colors_analyze_le options.family options.method) listed,
      ← Depth.size_eq]
    exact Nat.lt_of_lt_of_le (List.idxOf_lt_length_of_mem listed) covers

/-- The whole account of a quantized picture, whatever the raster, the device and the
depth asked for. -/
theorem ofRaster_reads_back (raster : Raster) (options : ConvertOptions) (image : Quantized)
    (quantized : ofRaster raster options = .ok image) :
    image.width = raster.width ∧ image.height = raster.height ∧
      image.pixels.length = raster.width.toNat * raster.height.toNat ∧
      (∀ value ∈ image.pixels, value.toNat < 2 ^ image.depth.bits) ∧
      (image.shading.palette?.isSome = true ↔ image.shading.isGrey = false) ∧
      match image.shading with
      | .indexed palette =>
        palette.Indexes image.depth image.pixels (raster.reduced options.family options.method)
      | .grey transparent =>
        GreyLevels transparent image.depth image.pixels
          (raster.reduced options.family options.method) := by
  have shows := ofRaster_shows quantized
  refine ⟨shows.width, shows.height, ?_, shows.values, ?_, shows.shading⟩
  · rw [shows.length_pixels, Raster.reduced, List.length_map, raster.length_pixels]
  · cases image.shading <;> simp [Shading.palette?, Shading.isGrey]

/-- Black, white and transparency take two bits, and dark grey marks the transparent
pixel. -/
theorem black_white_transparent_reads_back :
    ∃ raster image, raster.pixels = [.grey 0, .grey 250, ⟨9, 9, 9, 3⟩, .grey 255] ∧
      ofRaster raster ⟨.pebble64, .nearest, none⟩ = .ok image ∧
      image.depth = .two ∧ image.pixels = [0, 3, 1, 3] ∧
      GreyLevels (some 1) .two [0, 3, 1, 3]
        [.grey 0, .grey 255, .transparent, .grey 255] := by
  let raster : Raster := ⟨2, 2, [.grey 0, .grey 250, ⟨9, 9, 9, 3⟩, .grey 255], rfl⟩
  let image : Quantized := ⟨2, 2, .two, .grey (some 1), [0, 3, 1, 3]⟩
  have quantized : ofRaster raster ⟨.pebble64, .nearest, none⟩ = .ok image := by decide
  obtain ⟨_, _, _, _, _, levels⟩ := ofRaster_reads_back raster _ image quantized
  exact ⟨raster, image, rfl, quantized, rfl, rfl, levels⟩

end Quantized

end ResourcePack
