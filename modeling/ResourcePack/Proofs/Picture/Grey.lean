import Mathlib
import ResourcePack.Proofs.Picture.Depth
import ResourcePack.Proofs.Picture.Device

/-!
# Grey levels and the one that stands for transparency

A picture of device greys, with full transparency or without, has at most five colours.
`greyDepth` counts them, and that count is all that keeps the levels apart: at one bit
black and white are the only greys, at two bits at most three greys come with
transparency, and at four bits a level is left over in any case. So a level for
transparent pixels is always free, and it stays different from the others once all of
them have lost their lower bits.
-/

namespace ResourcePack

/-- The colours of a picture that grey levels can show: device greys and full
transparency, each listed once. -/
structure Greyish (colors : List Color) : Prop where
  nodup : colors.Nodup
  shades : ∀ c ∈ colors, c = .transparent ∨ ∃ level ∈ Method.levels, c = .grey level

/-- Distinct colours that all occur are no more than there are. -/
theorem length_le_of_subset {part colors : List Color} (distinct : part.Nodup)
    (occur : part ⊆ colors) : part.length ≤ colors.length :=
  (distinct.subperm occur).length_le

namespace Greyish

variable {colors : List Color}

theorem level_mem (h : Greyish colors) {level : UInt8} (hg : .grey level ∈ colors) :
    level ∈ Method.levels := by
  rcases h.shades _ hg with transparent | ⟨other, there, same⟩
  · simp [Color.grey, Color.transparent] at transparent
  · rwa [(Color.mk.inj same).1]

theorem length_le_five (h : Greyish colors) : colors.length ≤ 5 := by
  have all : colors ⊆ .transparent :: Method.levels.map .grey := by
    intro c hc
    rcases h.shades c hc with rfl | ⟨level, hl, rfl⟩
    · exact List.mem_cons_self
    · exact List.mem_cons_of_mem _ (List.mem_map_of_mem hl)
  exact length_le_of_subset h.nodup all

/-- Without midtones only black, white and transparency are left. -/
theorem length_le_three (h : Greyish colors) (dark : .grey 85 ∉ colors)
    (light : .grey 170 ∉ colors) : colors.length ≤ 3 := by
  have all : colors ⊆ [.transparent, .grey 0, .grey 255] := by
    intro c hc
    rcases h.shades c hc with rfl | ⟨level, hl, rfl⟩
    · exact List.mem_cons_self
    · rcases Method.mem_levels.mp hl with rfl | rfl | rfl | rfl
      · simp
      · exact absurd hc dark
      · exact absurd hc light
      · simp
  exact length_le_of_subset h.nodup all

end Greyish

namespace Analysis

theorem any_midtones (colors : List Color) :
    midtones.any (· ∈ colors) = true ↔ .grey 85 ∈ colors ∨ .grey 170 ∈ colors := by
  simp [midtones]

/-- One bit is chosen only for black and white, two of anything at most. -/
theorem greyDepth_one {colors : List Color} (one : greyDepth colors = .one) :
    .grey 85 ∉ colors ∧ .grey 170 ∉ colors ∧ colors.length ≤ 2 := by
  have midtones := any_midtones colors
  grind [greyDepth]

/-- Two bits are not chosen if all four greys come with transparency. -/
theorem greyDepth_two {colors : List Color} (two : greyDepth colors = .two)
    (h : Greyish colors) : colors.length ≤ 4 := by
  have midtones := any_midtones colors
  have three := h.length_le_three
  grind [greyDepth]

theorem greyDepth_ne_eight (colors : List Color) : greyDepth colors ≠ .eight := by
  grind [greyDepth]

/-- Grey levels have room for all colours, so palette positions have, too. -/
theorem length_le_size_greyDepth {colors : List Color} (h : Greyish colors) :
    colors.length ≤ (greyDepth colors).size := by
  cases depth : greyDepth colors with
  | one => exact (greyDepth_one depth).2.2
  | two => exact greyDepth_two depth h
  | four => exact Nat.le_trans h.length_le_five (by decide)
  | eight => exact absurd depth (greyDepth_ne_eight colors)

/-- Every grey that occurs is shown exactly: stretching its level gives it back. -/
theorem stretch_scale_greyDepth {colors : List Color} {depth : Depth} (h : Greyish colors)
    (chosen : greyDepth colors = depth) {level : UInt8} (hg : .grey level ∈ colors) :
    (depth.scale level).toNat * 255 / (2 ^ depth.bits - 1) = level.toNat := by
  have hl := Method.mem_levels.mp (h.level_mem hg)
  cases depth with
  | one =>
      obtain ⟨dark, light, _⟩ := greyDepth_one chosen
      rcases hl with rfl | rfl | rfl | rfl
      · rfl
      · exact absurd hg dark
      · exact absurd hg light
      · rfl
  | two => rcases hl with rfl | rfl | rfl | rfl <;> rfl
  | four => rcases hl with rfl | rfl | rfl | rfl <;> rfl
  | eight => exact absurd chosen (greyDepth_ne_eight colors)

/-- A grey that no opaque pixel uses gives the level, unless four bits make one of their
own. -/
theorem transparentLevel_of_find {analysis : Analysis} {depth : Depth} (shade : UInt8)
    (notFour : depth ≠ .four)
    (found : [0, 255, 85, 170].find? (fun level => Color.grey level ∉ analysis.colors) =
      some shade) :
    analysis.transparentLevel depth = .ok (depth.scale shade) := by
  simp only [transparentLevel, if_neg notFour, found]

/-- Two bits keep the four device greys apart. -/
theorem scale_two_injective {a b : UInt8} (ha : a ∈ Method.levels) (hb : b ∈ Method.levels)
    (same : Depth.two.scale a = Depth.two.scale b) : a = b := by
  revert same
  rcases Method.mem_levels.mp ha with rfl | rfl | rfl | rfl <;>
    rcases Method.mem_levels.mp hb with rfl | rfl | rfl | rfl <;> decide

/-- The level for transparent pixels exists, fits the depth, and no opaque pixel has it
after scaling. -/
theorem transparentLevel_greyDepth (analysis : Analysis) {depth : Depth}
    (h : Greyish analysis.colors) (chosen : greyDepth analysis.colors = depth)
    (clear : .transparent ∈ analysis.colors) :
    ∃ level, analysis.transparentLevel depth = .ok level ∧ level.toNat < depth.size ∧
      ∀ shade, .grey shade ∈ analysis.colors → depth.scale shade ≠ level := by
  cases depth with
  | one =>
      obtain ⟨dark, light, two⟩ := greyDepth_one chosen
      have extremes {shade : UInt8} (hs : .grey shade ∈ analysis.colors) :
          shade = 0 ∨ shade = 255 := by
        rcases Method.mem_levels.mp (h.level_mem hs) with rfl | rfl | rfl | rfl
        · exact Or.inl rfl
        · exact absurd hs dark
        · exact absurd hs light
        · exact Or.inr rfl
      by_cases black : .grey 0 ∈ analysis.colors
      · -- Black and transparency are all there is room for, so white is free.
        have white : .grey 255 ∉ analysis.colors := by
          intro white
          have three : [Color.transparent, .grey 0, .grey 255] ⊆ analysis.colors := by
            simp [clear, black, white]
          exact absurd (Nat.le_trans (length_le_of_subset (by decide) three) two) (by decide)
        refine ⟨_, transparentLevel_of_find 255 (by decide) (by simp [black, white]),
          by decide, ?_⟩
        intro shade hs
        rcases extremes hs with rfl | rfl
        · decide
        · exact absurd hs white
      · refine ⟨_, transparentLevel_of_find 0 (by decide) (by simp [black]),
          by decide, ?_⟩
        intro shade hs
        rcases extremes hs with rfl | rfl
        · exact absurd hs black
        · decide
  | two =>
      have free : ([0, 255, 85, 170].find? fun level =>
          Color.grey level ∉ analysis.colors).isSome = true := by
        by_contra none
        have all : ∀ level ∈ ([0, 255, 85, 170] : List UInt8), .grey level ∈ analysis.colors := by
          simpa using none
        have five : [Color.transparent, .grey 0, .grey 255, .grey 85, .grey 170] ⊆
            analysis.colors := by simpa [clear] using all
        exact absurd (Nat.le_trans (length_le_of_subset (by decide) five)
          (greyDepth_two chosen h)) (by decide)
      obtain ⟨shade, found⟩ := Option.isSome_iff_exists.mp free
      have missing : .grey shade ∉ analysis.colors := by simpa using List.find?_some found
      have level : shade ∈ Method.levels := by
        have among := List.mem_of_find?_eq_some found
        simp only [List.mem_cons, List.not_mem_nil, or_false] at among
        rw [Method.mem_levels]
        tauto
      refine ⟨_, transparentLevel_of_find shade (by decide) found, Depth.toNat_scale_lt _ _, ?_⟩
      intro other hs same
      exact missing (scale_two_injective (h.level_mem hs) level same ▸ hs)
  | four =>
      refine ⟨0xC, by simp [transparentLevel], by decide, ?_⟩
      intro shade hs
      rcases Method.mem_levels.mp (h.level_mem hs) with rfl | rfl | rfl | rfl <;> decide
  | eight => exact absurd chosen (greyDepth_ne_eight _)

end Analysis

end ResourcePack
