import Mathlib
import ResourcePack.Proofs.Picture.LeastDepth

/-!
# Forced depths

Quantizing looks for a level for transparency, which might be missing, and compares a forced
depth with the derived one. Only the comparison can fail. Grey levels are chosen for at most
as many colours as they have values, transparency included, so that a level is always left
at the depth they were chosen for, and they are kept at no other.
-/

namespace ResourcePack

/-- Every different member is seen first once. -/
theorem length_firstSeen {α : Type} [DecidableEq α] (xs : List α) :
    (firstSeen xs).length = xs.toFinset.card := by
  have same : (firstSeen xs).toFinset = xs.toFinset := by
    ext x
    rw [List.mem_toFinset, List.mem_toFinset, mem_firstSeen]
  rw [← same, List.toFinset_card_of_nodup (nodup_firstSeen xs)]

namespace Raster

variable (raster : Raster) (family : Family) (method : Method)

theorem length_colors_analyze : (raster.analyze family method).colors.length =
    (raster.reduced family method).toFinset.card :=
  length_firstSeen _

/-- The depth of an analysis is the least one with room for the different reduced colours. -/
theorem least_depth_analyze :
    Depth.Least (raster.analyze family method).depth.bits
      (raster.reduced family method).toFinset.card := by
  rw [depth_analyze, ← length_colors_analyze]
  exact Depth.least_forColors (length_colors_analyze_le raster family method)

/-- Where grey levels were chosen, transparency has one at the depth they were chosen for. -/
theorem exists_transparentLevel (grey : (raster.analyze family method).isGrey = true)
    (alpha : (raster.analyze family method).hasAlpha = true) :
    ∃ level, (raster.analyze family method).transparentLevel
      (raster.analyze family method).depth = .ok level := by
  obtain ⟨greyish, chosen⟩ := raster.greyish_analyze family method grey
  have clear : .transparent ∈ (raster.analyze family method).colors :=
    (Analysis.hasAlpha_iff_transparent_mem greyish).mp alpha
  obtain ⟨level, found, -⟩ :=
    Analysis.transparentLevel_greyDepth (raster.analyze family method) greyish chosen.symm clear
  exact ⟨level, found⟩

end Raster

namespace Quantized

variable {raster : Raster} {options : ConvertOptions}

/-- A depth that is too low is refused before anything else is looked at. -/
theorem ofRaster_of_low {forced : Depth} (asked : options.depth = some forced)
    (low : forced.bits < (raster.analyze options.family options.method).depth.bits) :
    ofRaster raster options = .error (.depthTooLow forced.bits
      (raster.analyze options.family options.method).depth.bits) := by
  simp [ofRaster, asked, low, bind, Except.bind, throw, throwThe, MonadExceptOf.throw]

/-- Nothing else goes wrong. Without a forced depth the derived one is taken. -/
theorem exists_ofRaster (enough : ∀ forced, options.depth = some forced →
      (raster.analyze options.family options.method).depth.bits ≤ forced.bits) :
    ∃ image, ofRaster raster options = .ok image ∧
      image.depth =
        options.depth.getD (raster.analyze options.family options.method).depth ∧
      (image.shading.isGrey = true ↔
        (raster.analyze options.family options.method).isGrey = true ∧
          image.depth = (raster.analyze options.family options.method).depth) := by
  have notLow : ¬ (options.depth.getD
      (raster.analyze options.family options.method).depth).bits <
        (raster.analyze options.family options.method).depth.bits := by
    cases asked : options.depth with
    | none => exact Nat.lt_irrefl _
    | some forced => exact Nat.not_lt.mpr (enough forced asked)
  simp only [ofRaster, if_neg notLow]
  by_cases kept : (raster.analyze options.family options.method).isGrey = true ∧
      options.depth.getD (raster.analyze options.family options.method).depth =
        (raster.analyze options.family options.method).depth
  · obtain ⟨grey, same⟩ := kept
    rw [if_pos (by simp [grey, same]), same]
    by_cases alpha : (raster.analyze options.family options.method).hasAlpha = true
    · obtain ⟨level, found⟩ :=
        raster.exists_transparentLevel options.family options.method grey alpha
      rw [if_pos alpha, found]
      exact ⟨_, rfl, rfl, iff_of_true rfl ⟨grey, rfl⟩⟩
    · rw [if_neg alpha]
      exact ⟨_, rfl, rfl, iff_of_true rfl ⟨grey, rfl⟩⟩
  · rw [if_neg (by simpa using kept)]
    exact ⟨_, rfl, rfl, iff_of_false Bool.false_ne_true kept⟩

/-- The one way to fail. -/
theorem ofRaster_eq_error_iff {cause : Picture.Error} :
    ofRaster raster options = .error cause ↔
      ∃ forced, options.depth = some forced ∧
        forced.bits < (raster.analyze options.family options.method).depth.bits ∧
        cause = .depthTooLow forced.bits
          (raster.analyze options.family options.method).depth.bits := by
  constructor
  · intro failed
    by_contra other
    have enough : ∀ forced, options.depth = some forced →
        (raster.analyze options.family options.method).depth.bits ≤ forced.bits := by
      intro forced asked
      apply Nat.le_of_not_lt
      intro low
      cases failed.symm.trans (ofRaster_of_low asked low)
      exact other ⟨forced, asked, low, rfl⟩
    obtain ⟨image, made, -⟩ := exists_ofRaster enough
    cases failed.symm.trans made
  · rintro ⟨forced, asked, low, rfl⟩
    exact ofRaster_of_low asked low

theorem exists_ofRaster_iff :
    (∃ image, ofRaster raster options = .ok image) ↔
      ∀ forced, options.depth = some forced →
        (raster.analyze options.family options.method).depth.bits ≤ forced.bits := by
  constructor
  · rintro ⟨image, made⟩ forced asked
    apply Nat.le_of_not_lt
    intro low
    cases made.symm.trans (ofRaster_of_low asked low)
  · intro enough
    obtain ⟨image, made, -⟩ := exists_ofRaster enough
    exact ⟨image, made⟩

/-- The whole account of when quantizing fails, whatever the raster, the device and the depth
asked for, and of the depth and the kind of the result when it does not. -/
theorem ofRaster_fails_only_below_least_depth (raster : Raster) (options : ConvertOptions) :
    let analysis := raster.analyze options.family options.method
    let reduced := raster.reduced options.family options.method
    ∃ required : Depth, Depth.Least required.bits reduced.toFinset.card ∧
      analysis.depth = required ∧
      (∀ cause, ofRaster raster options = .error cause ↔
        ∃ forced, options.depth = some forced ∧ forced.bits < required.bits ∧
          cause = .depthTooLow forced.bits required.bits) ∧
      (∀ bits, ofRaster raster options ≠ .error (.noTransparentLevel bits)) ∧
      ((∃ image, ofRaster raster options = .ok image) ↔
        ∀ forced, options.depth = some forced → required.bits ≤ forced.bits) ∧
      ∀ image, ofRaster raster options = .ok image →
        image.depth = options.depth.getD required ∧
        (image.shading.isGrey = true ↔ analysis.isGrey = true ∧ image.depth = required) := by
  intro analysis reduced
  refine ⟨analysis.depth, raster.least_depth_analyze options.family options.method, rfl, ?_, ?_,
    exists_ofRaster_iff, ?_⟩
  · intro cause
    exact ofRaster_eq_error_iff
  · intro bits failed
    obtain ⟨forced, -, -, ⟨⟩⟩ := ofRaster_eq_error_iff.mp failed
  · intro image made
    obtain ⟨other, again, depth, grey⟩ := exists_ofRaster (exists_ofRaster_iff.mp ⟨image, made⟩)
    cases made.symm.trans again
    exact ⟨depth, grey⟩

/-- Five colours, four of them grey and one transparent: two bits are refused, and at eight
bits there are no grey levels although they were chosen for four. -/
theorem four_greys_need_four_bits :
    ∃ raster : Raster, raster.pixels = [.grey 0, .grey 90, .grey 170, .grey 250, ⟨1, 2, 3, 4⟩] ∧
      ofRaster raster ⟨.pebble64, .nearest, some .two⟩ = .error (.depthTooLow 2 4) ∧
      ∃ image, ofRaster raster ⟨.pebble64, .nearest, some .eight⟩ = .ok image ∧
        image.depth = .eight ∧ image.shading.isGrey = false := by
  let raster : Raster :=
    ⟨5, 1, [.grey 0, .grey 90, .grey 170, .grey 250, ⟨1, 2, 3, 4⟩], rfl⟩
  have four : (raster.analyze .pebble64 .nearest).depth = .four := by decide
  obtain ⟨_, -, rfl, failure, -⟩ :=
    ofRaster_fails_only_below_least_depth raster ⟨.pebble64, .nearest, some .two⟩
  obtain ⟨_, -, rfl, -, -, success, result⟩ :=
    ofRaster_fails_only_below_least_depth raster ⟨.pebble64, .nearest, some .eight⟩
  rw [four] at failure success result
  obtain ⟨image, made⟩ := success.mpr (by rintro _ ⟨⟩; decide)
  obtain ⟨depth, grey⟩ := result image made
  refine ⟨raster, rfl, (failure _).mpr ⟨.two, rfl, by decide, rfl⟩, image, made, depth, ?_⟩
  rw [← Bool.not_eq_true, grey, depth]
  rintro ⟨-, ⟨⟩⟩

end Quantized

end ResourcePack
