import Mathlib
import ResourcePack.Proofs.Picture.Conversion
import ResourcePack.Proofs.Picture.ForcedDepth

/-!
# Converting again

Reduction leaves device colours alone, so a file that was made for a device has nothing left
to reduce but the colours of pixels one cannot see. A grey file shows all of those in one
grey. Black and white devices keep it, as black or as white, and others do not. The number of
colours is therefore the same again, and with it the depth.
-/

namespace ResourcePack

namespace Family

variable (family : Family) (method : Method)

/-- What one cannot see stays unseen. -/
theorem a_reduce_of_clear {c : Color} (clear : c.a = 0) : (family.reduce method c).a = 0 := by
  cases family with
  | pebble64 =>
      have level : method.level c.a = 0 := by
        rw [clear]
        cases method <;> rfl
      simp only [reduce, reduce64, if_pos level]
      rfl
  | pebble2 => cases method <;> simp [reduce, reduce2, clear, extreme]

/-- Devices with more colours than black and white have just one that cannot be seen. -/
theorem reduce_eq_transparent {c : Color} (clear : (reduce .pebble64 method c).a = 0) :
    reduce .pebble64 method c = .transparent := by
  simp only [reduce, reduce64] at clear ⊢
  split
  · rfl
  · rename_i visible
    rw [if_neg visible] at clear
    exact absurd clear visible

end Family

namespace Raster

/-- A raster has the reduced colours of another one, except where they cannot be seen. Either
no colour differs or only one cannot be seen. -/
structure Redraws (shown raster : Raster) (family : Family) (method : Method)
    (recolor : Color → Color) : Prop where
  width : shown.width = raster.width
  height : shown.height = raster.height
  pixels : shown.pixels = (raster.reduced family method).map recolor
  opacity : ∀ c ∈ raster.reduced family method, (recolor c).a = c.a
  visible : ∀ c ∈ raster.reduced family method, c.a ≠ 0 → recolor c = c
  clear : (∀ c ∈ raster.reduced family method, recolor c = c) ∨
    ∀ c ∈ raster.reduced family method, c.a = 0 → c = .transparent

namespace Redraws

variable {shown raster : Raster} {family : Family} {method : Method} {recolor : Color → Color}

theorem reduced_eq (redraws : shown.Redraws raster family method recolor) :
    shown.reduced family method =
      (raster.reduced family method).map fun c => family.reduce method (recolor c) := by
  rw [Raster.reduced, redraws.pixels, List.map_map]
  rfl

/-- Reducing again changes no colour that can be seen. -/
theorem reduce_recolor (redraws : shown.Redraws raster family method recolor) {c : Color}
    (member : c ∈ raster.reduced family method) :
    (family.reduce method (recolor c)).a = c.a ∧
      (recolor c = c → family.reduce method (recolor c) = c) := by
  have same : recolor c = c → family.reduce method (recolor c) = c := by
    intro kept
    obtain ⟨pixel, -, rfl⟩ := List.mem_map.mp member
    rw [kept, family.reduce_reduce]
  refine ⟨?_, same⟩
  by_cases clear : c.a = 0
  · rw [clear]
    exact family.a_reduce_of_clear method ((redraws.opacity c member).trans clear)
  · rw [same (redraws.visible c member clear)]

/-- Colours that were different still are. -/
theorem injOn (redraws : shown.Redraws raster family method recolor) :
    Set.InjOn (fun c => family.reduce method (recolor c))
      {c | c ∈ raster.reduced family method} := by
  intro c hc d hd same
  have opacity : c.a = d.a := by
    rw [← (redraws.reduce_recolor hc).1, ← (redraws.reduce_recolor hd).1]
    exact congrArg Color.a same
  have kept (hc' : recolor c = c) (hd' : recolor d = d) : c = d := by
    rw [← (redraws.reduce_recolor hc).2 hc', ← (redraws.reduce_recolor hd).2 hd']
    exact same
  by_cases clear : c.a = 0
  · -- The reader may have chosen a new colour, but for one old colour only.
    rcases redraws.clear with all | one
    · exact kept (all c hc) (all d hd)
    · rw [one c hc clear, one d hd (opacity.symm.trans clear)]
  · have clear' : d.a ≠ 0 := fun h => clear (opacity.trans h)
    exact kept (redraws.visible c hc clear) (redraws.visible d hd clear')

/-- So as many bits are needed as before. -/
theorem depth_eq (redraws : shown.Redraws raster family method recolor) :
    (shown.analyze family method).depth = (raster.analyze family method).depth := by
  have count : (shown.reduced family method).toFinset.card =
      (raster.reduced family method).toFinset.card := by
    have image : (shown.reduced family method).toFinset =
        (raster.reduced family method).toFinset.image
          fun c => family.reduce method (recolor c) := by
      ext c
      simp [redraws.reduced_eq]
    rw [image]
    apply Finset.card_image_of_injOn
    intro c hc d hd
    exact redraws.injOn (List.mem_toFinset.mp hc) (List.mem_toFinset.mp hd)
  rw [depth_analyze, depth_analyze, length_colors_analyze, length_colors_analyze, count]

/-- On devices with more colours than black and white all reduced colours are the same. -/
theorem reduced_of_pebble64 (redraws : shown.Redraws raster family method recolor)
    (colorful : family = .pebble64) :
    shown.reduced family method = raster.reduced family method := by
  subst colorful
  rw [redraws.reduced_eq]
  refine (List.map_congr_left ?_).trans (List.map_id _)
  intro c member
  by_cases clear : c.a = 0
  · have one : c = .transparent := by
      obtain ⟨pixel, -, rfl⟩ := List.mem_map.mp member
      exact Family.reduce_eq_transparent method clear
    rw [id, one]
    apply Family.reduce_eq_transparent method
    rw [← one]
    exact (redraws.reduce_recolor member).1.trans clear
  · exact (redraws.reduce_recolor member).2 (redraws.visible c member clear)

end Redraws

end Raster

namespace Png

/-- The raster of a file has the pixels in its content. -/
theorem pixels_of_decode {file : Bytes} {content : Content} {shown : Raster}
    (read : Content.ofBytes? file = some content) (decoded : decode file = .ok shown) :
    shown.pixels = content.pixels := by
  simp only [decode, read, Content.toRaster, Raster.ofPixels] at decoded
  split at decoded
  · rw [← Except.ok.inj decoded]
  · cases decoded

end Png

namespace Quantized

variable {raster : Raster} {options : ConvertOptions} {picture : Quantized}

/-- The value of a pixel only depends on its reduced colour. -/
theorem exists_pixels_eq_map (quantized : ofRaster raster options = .ok picture) :
    ∃ value : Color → UInt8,
      picture.pixels = (raster.reduced options.family options.method).map value := by
  rcases ofRaster_cases quantized with ⟨-, transparent, -, rfl⟩ | ⟨depth, -, rfl⟩
  · exact ⟨_, rfl⟩
  · exact ⟨_, rfl⟩

/-- In grey levels only one colour cannot be seen. -/
theorem eq_transparent_of_grey (quantized : ofRaster raster options = .ok picture)
    (grey : picture.shading.isGrey = true) {c : Color}
    (member : c ∈ raster.reduced options.family options.method) (clear : c.a = 0) :
    c = .transparent := by
  rcases ofRaster_cases quantized with ⟨chosen, -⟩ | ⟨depth, -, rfl⟩
  · obtain ⟨greyish, -⟩ := raster.greyish_analyze options.family options.method chosen
    have listed := (raster.mem_colors_analyze options.family options.method).mpr member
    rcases greyish.shades c listed with rfl | ⟨level, -, rfl⟩
    · rfl
    · exact absurd clear (Color.a_grey_ne_zero level)
  · cases grey

/-- The file of a quantized raster shows its reduced colours. -/
theorem exists_redraws (quantized : ofRaster raster options = .ok picture) {file : Bytes}
    (encoded : Png.encode picture = .ok file) :
    ∃ shown recolor, Png.decode file = .ok shown ∧
      shown.Redraws raster options.family options.method recolor := by
  have shows := ofRaster_shows quantized
  have all := raster.length_reduced options.family options.method
  obtain ⟨content, made, read⟩ := shows.exists_content all encoded
  obtain ⟨content', shown, read', decoded, width, height, keeps⟩ := shows.decode_encode all encoded
  cases read.symm.trans read'
  obtain ⟨value, values⟩ := exists_pixels_eq_map quantized
  have pixels := shows.pixels_content all made
  rw [← Png.pixels_of_decode read decoded, values, List.map_map] at pixels
  rw [pixels, List.forall₂_map_left_iff, List.forall₂_same] at keeps
  refine ⟨shown, _, decoded, width, height, pixels, fun c member => (keeps c member).1,
    fun c member visible => (keeps c member).2 (.inl visible), ?_⟩
  obtain ⟨header, -⟩ := Png.Content.header_ofQuantized made
  cases grey : picture.shading.isGrey with
  | true => exact .inr fun c member => eq_transparent_of_grey quantized grey member
  | false =>
      have indexed : content.header.kind = .indexed := by rw [header, grey]; rfl
      exact .inl fun c member => (keeps c member).2 (.inr indexed)

/-- Quantizing does not look at pixels, but only at what they are reduced to. -/
theorem ofRaster_congr {other : Raster} (width : other.width = raster.width)
    (height : other.height = raster.height)
    (reduced : other.reduced options.family options.method =
      raster.reduced options.family options.method) :
    ofRaster other options = ofRaster raster options := by
  rw [ofRaster, ofRaster, Raster.analyze, Raster.analyze, width, height, reduced]

end Quantized

namespace Raster.Redraws

variable {shown raster : Raster} {options : ConvertOptions} {recolor : Color → Color}

/-- What was quantized and written once is quantized and written again. -/
theorem exists_again (redraws : shown.Redraws raster options.family options.method recolor)
    {picture : Quantized} (quantized : Quantized.ofRaster raster options = .ok picture)
    {file : Bytes} (encoded : Png.encode picture = .ok file) :
    ∃ again copy, Quantized.ofRaster shown options = .ok again ∧
      Png.encode again = .ok copy := by
  have enough := Quantized.exists_ofRaster_iff.mp ⟨picture, quantized⟩
  rw [← redraws.depth_eq] at enough
  obtain ⟨again, requantized⟩ := Quantized.exists_ofRaster_iff.mpr enough
  have once := Quantized.ofRaster_shows quantized
  have twice := Quantized.ofRaster_shows requantized
  obtain ⟨_, written, -⟩ := Outcome.map_eq_ok.mp encoded
  obtain ⟨wide, high, -⟩ := Png.Content.ofQuantized_cases written
  rw [once.width, ← redraws.width, ← twice.width] at wide
  rw [once.height, ← redraws.height, ← twice.height] at high
  have all : again.pixels.length = again.width.toNat * again.height.toNat := by
    rw [twice.length_pixels, twice.width, twice.height, shown.length_reduced]
  obtain ⟨content, made⟩ := Png.Content.exists_ofQuantized wide high all
  exact ⟨again, content.toBytes, requantized, by rw [Png.encode, made]; rfl⟩

/-- Reading the second file gives what reading the first one gave, but for colours that
cannot be seen. -/
theorem decode_again (redraws : shown.Redraws raster options.family options.method recolor)
    {again : Quantized} (requantized : Quantized.ofRaster shown options = .ok again)
    {copy : Bytes} (encoded : Png.encode again = .ok copy) :
    ∃ reshown, Png.decode copy = .ok reshown ∧ reshown.width = shown.width ∧
      reshown.height = shown.height ∧
      List.Forall₂ (fun later earlier => later.a = earlier.a ∧
        (earlier.a ≠ 0 → later = earlier)) reshown.pixels shown.pixels := by
  have all := shown.length_reduced options.family options.method
  obtain ⟨content, reshown, -, decoded, width, height, keeps⟩ :=
    (Quantized.ofRaster_shows requantized).decode_encode all encoded
  refine ⟨reshown, decoded, width, height, ?_⟩
  rw [redraws.reduced_eq, List.forall₂_map_right_iff] at keeps
  rw [redraws.pixels, List.forall₂_map_right_iff]
  rw [List.forall₂_iff_zip] at keeps ⊢
  refine ⟨keeps.1, ?_⟩
  intro pixel c there
  have member := (List.of_mem_zip there).2
  obtain ⟨opacity, visible⟩ := keeps.2 there
  obtain ⟨unseen, same⟩ := redraws.reduce_recolor member
  rw [redraws.opacity c member]
  refine ⟨opacity.trans unseen, ?_⟩
  intro seen
  have kept := redraws.visible c member seen
  rw [visible (.inl (unseen.trans_ne seen)), same kept, kept]

end Raster.Redraws

namespace Codec

/-- Whatever file is converted, what comes out can be converted again to the same device. -/
theorem converting_again_is_stable (data : Bytes) (options : ConvertOptions) (file : Bytes)
    (converted : png.convert data options = .ok file) :
    ∃ raster picture shown again copy reshown, png.decode data = .ok raster ∧
      Quantized.ofRaster raster options = .ok picture ∧ png.encode picture = .ok file ∧
      png.decode file = .ok shown ∧ Quantized.ofRaster shown options = .ok again ∧
      png.encode again = .ok copy ∧ png.convert file options = .ok copy ∧
      png.decode copy = .ok reshown ∧ (options.family = .pebble64 → again = picture) ∧
      reshown.width = shown.width ∧ reshown.height = shown.height ∧
      List.Forall₂ (fun later earlier => later.a = earlier.a ∧
        (earlier.a ≠ 0 → later = earlier)) reshown.pixels shown.pixels := by
  obtain ⟨raster, decoded, converted⟩ := Outcome.bind_eq_ok.mp converted
  obtain ⟨picture, quantized, encoded⟩ := Outcome.bind_eq_ok.mp converted
  obtain ⟨shown, recolor, shows, redraws⟩ := Quantized.exists_redraws quantized encoded
  obtain ⟨again, copy, requantized, reencoded⟩ := redraws.exists_again quantized encoded
  obtain ⟨reshown, reshows, width, height, pixels⟩ := redraws.decode_again requantized reencoded
  have reconverted : png.convert file options = .ok copy :=
    Outcome.bind_eq_ok.mpr ⟨shown, shows, Outcome.bind_eq_ok.mpr ⟨again, requantized, reencoded⟩⟩
  refine ⟨raster, picture, shown, again, copy, reshown, decoded, quantized, encoded, shows,
    requantized, reencoded, reconverted, reshows, ?_, width, height, pixels⟩
  intro colorful
  have same := Quantized.ofRaster_congr redraws.width redraws.height
    (redraws.reduced_of_pebble64 colorful)
  exact Except.ok.inj (requantized.symm.trans (same.trans quantized))

/-- A file of a black pixel and one that can hardly be seen. -/
def blackAndClear : Bytes :=
  Png.Content.toBytes ⟨⟨2, 1, .rgba, 8, false⟩, none, none, [[[9, 0, 3, 255, 7, 7, 7, 3]]]⟩

/-- At one bit black leaves only the level of white for transparency, which is then read as a
second colour that cannot be seen. -/
theorem blackAndClear_converts_again :
    ∃ file copy shown reshown clear,
      png.convert blackAndClear ⟨.pebble2, .nearest, none⟩ = .ok file ∧
      png.convert file ⟨.pebble2, .nearest, none⟩ = .ok copy ∧
      png.decode file = .ok shown ∧ png.decode copy = .ok reshown ∧
      shown.pixels = [.grey 0, ⟨255, 255, 255, 0⟩] ∧ reshown.pixels = [.grey 0, clear] ∧
      clear.a = 0 := by
  have known : ((png.convert blackAndClear ⟨.pebble2, .nearest, none⟩).bind png.decode).map
      Raster.pixels = .ok [.grey 0, ⟨255, 255, 255, 0⟩] := by
    decide +kernel
  obtain ⟨shown, read, pixels⟩ := Outcome.map_eq_ok.mp known
  obtain ⟨file, converted, decoded⟩ := Outcome.bind_eq_ok.mp read
  obtain ⟨_, _, _, _, copy, reshown, -, -, -, shows, -, -, reconverted, reshows, -, -, -,
    keeps⟩ := converting_again_is_stable _ _ _ converted
  cases shows.symm.trans decoded
  rw [pixels] at keeps
  obtain ⟨black, others, ⟨-, same⟩, keeps', later⟩ := List.forall₂_cons_right_iff.mp keeps
  obtain ⟨clear, rest, ⟨unseen, -⟩, keeps'', rfl⟩ := List.forall₂_cons_right_iff.mp keeps'
  rw [same (by decide), List.forall₂_nil_right_iff.mp keeps''] at later
  exact ⟨file, copy, shown, reshown, clear, converted, reconverted, decoded, reshows, pixels,
    later, unseen⟩

end Codec

end ResourcePack
