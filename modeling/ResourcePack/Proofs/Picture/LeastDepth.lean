import Mathlib
import ResourcePack.Proofs.Picture.Quantized

/-!
# The least depth

The depth of an analysis comes from one of two tables, one for palette positions that goes
by the number of colours and one for grey levels that looks at the midtones as well. The
second one never asks for less than the first, and where it asks for more, grey levels are
given up. So the depth is always the least one with room for the colours, and grey levels
are chosen exactly if that depth shows each grey as it is. Only which colours occur matters
for this, not where.
-/

namespace ResourcePack

namespace Depth

/-- The least of the numbers of bits that pixels may have with room for this many values. -/
structure Least (bits count : Nat) : Prop where
  listed : bits ∈ [1, 2, 4, 8]
  room : count ≤ 2 ^ bits
  least : ∀ fewer ∈ [1, 2, 4, 8], count ≤ 2 ^ fewer → bits ≤ fewer

theorem least_forColors {count : Nat} (small : count ≤ 256) :
    Least (forColors count).bits count := by
  constructor
  · cases forColors count <;> decide
  · rw [← size_eq]
    exact le_size_forColors small
  · intro fewer listed room
    have choice : fewer = 1 ∨ fewer = 2 ∨ fewer = 4 ∨ fewer = 8 := by simpa using listed
    rcases choice with rfl | rfl | rfl | rfl
    · have one : forColors count = .one := if_pos room
      rw [one]
      exact Nat.le_refl 1
    · grind [forColors, bits]
    · grind [forColors, bits]
    · exact bits_le_eight _

end Depth

namespace Greyish

variable {colors : List Color}

/-- Without midtones, or with more than two colours, grey levels need as many bits as
palette positions. A midtone among two colours needs one more. -/
theorem greyDepth_eq_forColors_iff (greyish : Greyish colors) :
    Analysis.greyDepth colors = .forColors colors.length ↔
      (.grey 85 ∉ colors ∧ .grey 170 ∉ colors) ∨ 2 < colors.length := by
  have midtones := Analysis.any_midtones colors
  have five := greyish.length_le_five
  have three := greyish.length_le_three
  grind [Analysis.greyDepth, Depth.forColors]

/-- Grey levels never need fewer bits than palette positions. -/
theorem bits_forColors_le (greyish : Greyish colors) :
    (Depth.forColors colors.length).bits ≤ (Analysis.greyDepth colors).bits := by
  have midtones := Analysis.any_midtones colors
  have five := greyish.length_le_five
  have three := greyish.length_le_three
  grind [Analysis.greyDepth, Depth.forColors, Depth.bits]

/-- The least depth for the colours shows every grey among them exactly in the same cases. -/
theorem dvd_iff (greyish : Greyish colors) :
    (∀ level, .grey level ∈ colors →
        255 / (2 ^ (Depth.forColors colors.length).bits - 1) ∣ level.toNat) ↔
      (.grey 85 ∉ colors ∧ .grey 170 ∉ colors) ∨ 2 < colors.length := by
  have five := greyish.length_le_five
  by_cases few : colors.length ≤ 2
  · have one : Depth.forColors colors.length = .one := if_pos few
    rw [one]
    constructor
    · intro shown
      refine Or.inl ⟨fun dark => ?_, fun light => ?_⟩
      · exact absurd (shown 85 dark) (by decide)
      · exact absurd (shown 170 light) (by decide)
    · rintro (⟨dark, light⟩ | many)
      · intro level occurs
        rcases Method.mem_levels.mp (greyish.level_mem occurs) with rfl | rfl | rfl | rfl
        · decide
        · exact absurd occurs dark
        · exact absurd occurs light
        · decide
      · omega
  · -- From two bits on the steps between levels are divisors of 85.
    have fine : Depth.forColors colors.length = .two ∨ Depth.forColors colors.length = .four := by
      grind [Depth.forColors]
    refine iff_of_true ?_ (Or.inr (Nat.lt_of_not_le few))
    intro level occurs
    rcases fine with two | four
    · rw [two]
      rcases Method.mem_levels.mp (greyish.level_mem occurs) with rfl | rfl | rfl | rfl <;> decide
    · rw [four]
      rcases Method.mem_levels.mp (greyish.level_mem occurs) with rfl | rfl | rfl | rfl <;> decide

end Greyish

namespace Analysis

/-- For colours that grey levels can show, they are chosen exactly if they need the same
number of bits as palette positions. -/
theorem isGrey_ofColors_iff {colors : List Color} (greyish : Greyish colors) :
    (ofColors colors).isGrey = true ↔ greyDepth colors = .forColors colors.length := by
  have shades : (colors.all fun c => c.isOpaqueGrey || c = .transparent) = true := by
    rw [List.all_eq_true]
    intro c hc
    rcases greyish.shades c hc with rfl | ⟨level, -, rfl⟩ <;> simp
  have least := greyish.bits_forColors_le
  simp only [ofColors, shades, Bool.true_and, decide_eq_true_eq]
  constructor
  · intro enough
    exact Depth.bits_injective (Nat.le_antisymm enough least)
  · intro same
    rw [same]

/-- The two members of a list of colours that decide on its depths do not depend on the
order. -/
theorem ofColors_perm {colors others : List Color} (perm : colors.Perm others) :
    (ofColors colors).isGrey = (ofColors others).isGrey ∧
      (ofColors colors).hasAlpha = (ofColors others).hasAlpha ∧
      (ofColors colors).depth = (ofColors others).depth := by
  have grey : greyDepth colors = greyDepth others := by
    simp only [greyDepth, perm.mem_iff, perm.length_eq]
  simp only [ofColors, grey, perm.length_eq, perm.all_eq, perm.any_eq, and_self]

/-- What an analysis finds in reduced colours: the different ones, as they come, the least
depth with room for them, and whether they are transparent or greys that this depth shows. -/
structure Finds (analysis : Analysis) (reduced : List Color) : Prop where
  distinct : analysis.colors.Nodup
  occurs : ∀ c, c ∈ analysis.colors ↔ c ∈ reduced
  order : analysis.colors.Pairwise fun x y => reduced.idxOf x < reduced.idxOf y
  depth : Depth.Least analysis.depth.bits analysis.colors.length
  hasAlpha : analysis.hasAlpha = true ↔ ∃ c ∈ reduced, c.a ≠ 255
  isGrey : analysis.isGrey = true ↔
    (∀ c ∈ reduced, (∃ level, c = .grey level) ∨ c = ⟨0, 0, 0, 0⟩) ∧
      ∀ level, .grey level ∈ reduced → 255 / (2 ^ analysis.depth.bits - 1) ∣ level.toNat

end Analysis

namespace Raster

variable (raster : Raster) (family : Family) (method : Method)

theorem depth_analyze :
    (raster.analyze family method).depth =
      .forColors (raster.analyze family method).colors.length := by
  by_cases grey : (raster.analyze family method).isGrey = true
  · obtain ⟨greyish, depth⟩ := greyish_analyze raster family method grey
    rw [depth]
    exact (Analysis.isGrey_ofColors_iff greyish).mp grey
  · simp only [analyze, Analysis.ofColors] at grey ⊢
    exact if_neg grey

theorem isGrey_analyze_iff :
    (raster.analyze family method).isGrey = true ↔
      (∀ c ∈ raster.reduced family method, (∃ level, c = .grey level) ∨ c = ⟨0, 0, 0, 0⟩) ∧
        ∀ level, .grey level ∈ raster.reduced family method →
          255 / (2 ^ (raster.analyze family method).depth.bits - 1) ∣ level.toNat := by
  simp only [← mem_colors_analyze, depth_analyze]
  constructor
  · intro grey
    obtain ⟨greyish, -⟩ := greyish_analyze raster family method grey
    refine ⟨?_, ?_⟩
    · intro c hc
      rcases greyish.shades c hc with rfl | ⟨level, -, rfl⟩
      · exact Or.inr rfl
      · exact Or.inl ⟨level, rfl⟩
    · rw [greyish.dvd_iff, ← greyish.greyDepth_eq_forColors_iff]
      exact (Analysis.isGrey_ofColors_iff greyish).mp grey
  · rintro ⟨shades, shown⟩
    have greyish : Greyish (raster.analyze family method).colors := by
      refine greyish_colors_analyze raster family method ?_
      intro c hc
      rcases shades c hc with ⟨level, rfl⟩ | rfl
      · exact Or.inl (Color.isOpaqueGrey_grey level)
      · exact Or.inr rfl
    rw [greyish.dvd_iff, ← greyish.greyDepth_eq_forColors_iff] at shown
    exact (Analysis.isGrey_ofColors_iff greyish).mpr shown

/-- Two rasters with the same reduced colours ask for the same, wherever the colours are. -/
theorem analyze_congr {raster other : Raster} {family family' : Family} {method method' : Method}
    (same : ∀ c, c ∈ raster.reduced family method ↔ c ∈ other.reduced family' method') :
    (raster.analyze family method).colors.Perm (other.analyze family' method').colors := by
  refine (List.perm_ext_iff_of_nodup (nodup_colors_analyze raster family method)
    (nodup_colors_analyze other family' method')).mpr ?_
  intro c
  rw [mem_colors_analyze, mem_colors_analyze, same]

/-- The depth of a raster is the least one with room for its colours, whether grey levels are
chosen or not, and they are chosen exactly if that depth shows every grey. None of this
depends on where the colours are. -/
theorem analyze_finds_least_depth :
    (raster.analyze family method).Finds (raster.reduced family method) ∧
    ∀ (other : Raster) (family' : Family) (method' : Method),
      (∀ c, c ∈ raster.reduced family method ↔ c ∈ other.reduced family' method') →
        (raster.analyze family method).colors.Perm (other.analyze family' method').colors ∧
        (raster.analyze family method).isGrey = (other.analyze family' method').isGrey ∧
        (raster.analyze family method).hasAlpha = (other.analyze family' method').hasAlpha ∧
        (raster.analyze family method).depth = (other.analyze family' method').depth := by
  constructor
  · refine ⟨nodup_colors_analyze raster family method,
      fun _ => mem_colors_analyze raster family method, pairwise_firstSeen _, ?_, ?_,
      isGrey_analyze_iff raster family method⟩
    · rw [depth_analyze raster family method]
      exact Depth.least_forColors (length_colors_analyze_le raster family method)
    · simp only [← mem_colors_analyze]
      exact Analysis.hasAlpha_ofColors_iff
  · intro other family' method' same
    have perm := analyze_congr same
    exact ⟨perm, Analysis.ofColors_perm perm⟩

/-- A grey between black and white among three colours. A second picture has them in another
order and one of them twice. -/
theorem dark_white_transparent_least :
    ∃ raster other : Raster, raster.pixels = [.grey 85, .grey 255, .transparent] ∧
      other.pixels = [.transparent, .grey 250, .grey 255, .grey 90] ∧
      Depth.Least (raster.analyze .pebble64 .nearest).depth.bits 3 ∧
      (raster.analyze .pebble64 .nearest).isGrey = true ∧
      (raster.analyze .pebble64 .nearest).colors.Perm
        (other.analyze .pebble64 .nearest).colors ∧
      (other.analyze .pebble64 .nearest).isGrey = true := by
  let raster : Raster := ⟨3, 1, [.grey 85, .grey 255, .transparent], rfl⟩
  let other : Raster := ⟨2, 2, [.transparent, .grey 250, .grey 255, .grey 90], rfl⟩
  have reduced : raster.reduced .pebble64 .nearest = [.grey 85, .grey 255, .transparent] := rfl
  have again : other.reduced .pebble64 .nearest =
      [.transparent, .grey 255, .grey 255, .grey 85] := rfl
  obtain ⟨finds, order⟩ := analyze_finds_least_depth raster .pebble64 .nearest
  have chosen : (raster.analyze .pebble64 .nearest).isGrey = true := by
    refine finds.isGrey.mpr ⟨?_, ?_⟩
    · rw [reduced]
      rintro c (_ | ⟨_, _ | ⟨_, _ | ⟨_, ⟨⟩⟩⟩⟩)
      · exact Or.inl ⟨85, rfl⟩
      · exact Or.inl ⟨255, rfl⟩
      · exact Or.inr rfl
    · rw [reduced]
      rintro level (_ | ⟨_, _ | ⟨_, _ | ⟨_, ⟨⟩⟩⟩⟩) <;> decide
  obtain ⟨perm, same, -, -⟩ := order other .pebble64 .nearest (by
    intro c
    rw [reduced, again]
    simp only [List.mem_cons, List.not_mem_nil, or_false]
    tauto)
  exact ⟨raster, other, rfl, rfl, finds.depth, chosen, perm, same ▸ chosen⟩

end Raster

end ResourcePack
