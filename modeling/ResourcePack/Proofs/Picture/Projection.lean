import Mathlib.Data.Set.Card
import ResourcePack.Proofs.Picture.Luma
import ResourcePack.Proofs.Picture.Quantized

/-!
# Reduction as a projection

Each reduction takes the pixels onto the colours of its device, leaves these where they are,
and keeps the order that compares pixels channel by channel. On colour watches opacity
decides first: what comes out without any has lost its colour, which is the least there is.
On the others the colour depends on brightness, which grows with every channel.
-/

namespace ResourcePack

/-- No channel of a colour is greater than that of another one, opacity included. -/
structure Color.AtMost (c d : Color) : Prop where
  r : c.r ≤ d.r
  g : c.g ≤ d.g
  b : c.b ≤ d.b
  a : c.a ≤ d.a

theorem Color.transparent_atMost (c : Color) : transparent.AtMost c :=
  ⟨UInt8.zero_le, UInt8.zero_le, UInt8.zero_le, UInt8.zero_le⟩

namespace Method

theorem toNat_level (method : Method) (value : UInt8) :
    (method.level value).toNat = match method with
      | .nearest => (value.toNat + 42) / 85 * 85
      | .truncate => value.toNat / 85 * 85 := by
  have bound := value.toNat_lt
  have small {n : Nat} (few : n ≤ 3) : (UInt8.ofNat (n * 85)).toNat = n * 85 := by
    apply UInt8.toNat_ofNat_of_lt'
    rw [UInt8.size]
    omega
  cases method with
  | nearest => exact small (by omega)
  | truncate => exact small (by omega)

theorem level_mono (method : Method) {v w : UInt8} (le : v ≤ w) :
    method.level v ≤ method.level w := by
  rw [UInt8.le_iff_toNat_le] at le ⊢
  rw [toNat_level, toNat_level]
  cases method with
  | nearest => exact Nat.mul_le_mul_right 85 (Nat.div_le_div_right (Nat.add_le_add_right le 42))
  | truncate => exact Nat.mul_le_mul_right 85 (Nat.div_le_div_right le)

end Method

namespace Family

/-- What a device shows: on colour watches four levels of each channel, with nothing but
black where there is no opacity, and on the others black and white. -/
def Shows : Family → Color → Prop
  | .pebble64, c =>
    (∀ channel ∈ c.toList, channel ∈ [0, 85, 170, 255]) ∧ (c.a = 0 → c = ⟨0, 0, 0, 0⟩)
  | .pebble2, c => c ∈ [⟨0, 0, 0, 0⟩, ⟨0, 0, 0, 255⟩, ⟨255, 255, 255, 0⟩, ⟨255, 255, 255, 255⟩]

/-- The number of colours that a device shows. -/
def count : Family → Nat
  | .pebble64 => 193
  | .pebble2 => 4

theorem mem_colors_iff {family : Family} {c : Color} : c ∈ family.colors ↔ family.Shows c := by
  cases family with
  | pebble64 =>
      obtain ⟨r, g, b, a⟩ := c
      have opaques (a : UInt8) : a ∈ ([85, 170, 255] : List UInt8) ↔ a ∈ Method.levels ∧ a ≠ 0 := by
        rw [Method.levels, List.mem_cons (a := a) (b := 0)]
        constructor
        · intro some
          refine ⟨.inr some, ?_⟩
          rintro rfl
          exact absurd some (by decide)
        · rintro ⟨none | some, visible⟩
          · exact absurd none visible
          · exact some
      constructor
      · intro member
        rcases List.mem_cons.mp member with same | visible
        · cases same
          exact ⟨by simp [Color.toList], fun _ => rfl⟩
        · simp only [List.mem_flatMap, List.mem_map, Color.mk.injEq] at visible
          obtain ⟨_, ha, _, hr, _, hg, _, hb, rfl, rfl, rfl, rfl⟩ := visible
          obtain ⟨ha, visible⟩ := (opaques _).mp ha
          refine ⟨?_, fun clear => absurd clear visible⟩
          intro channel among
          simp only [Color.toList, List.mem_cons, List.not_mem_nil, or_false] at among
          rcases among with rfl | rfl | rfl | rfl <;> assumption
      · rintro ⟨levels, clear⟩
        by_cases invisible : a = 0
        · rw [clear invisible]
          exact List.mem_cons_self
        · have channel (v : UInt8) (among : v ∈ [r, g, b, a]) : v ∈ Method.levels := levels v among
          refine List.mem_cons_of_mem _ ?_
          simp only [List.mem_flatMap, List.mem_map, Color.mk.injEq]
          exact ⟨a, (opaques a).mpr ⟨channel a (by simp), invisible⟩, r, channel r (by simp), g,
            channel g (by simp), b, channel b (by simp), rfl, rfl, rfl, rfl⟩
  | pebble2 =>
      simp only [colors, Shows, Color.grey, List.flatMap_cons, List.flatMap_nil, List.append_nil,
        List.cons_append, List.nil_append]

/-- The channels of a colour as one number, opacity first. -/
def rank (c : Color) : Nat :=
  ((c.a.toNat * 256 + c.r.toNat) * 256 + c.g.toNat) * 256 + c.b.toNat

/-- Colours that are listed by rank are different. -/
theorem nodup_colors (family : Family) : family.colors.Nodup := by
  cases family with
  | pebble64 =>
      have chain : (colors .pebble64).IsChain fun c d => rank c < rank d := by decide +kernel
      have ascending : (colors .pebble64).Pairwise fun c d => rank c < rank d :=
        List.isChain_iff_pairwise.mp chain
      refine ascending.imp ?_
      rintro c _ less rfl
      exact Nat.lt_irrefl _ less
  | pebble2 => decide

variable (family : Family) (method : Method)

/-- Every colour of the device is reached, and nothing else. -/
theorem exists_reduce_iff {c : Color} :
    (∃ pixel, family.reduce method pixel = c) ↔ family.Shows c := by
  rw [← mem_colors_iff]
  constructor
  · rintro ⟨pixel, rfl⟩
    exact family.reduce_mem_colors method pixel
  · intro member
    exact ⟨c, family.reduce_of_mem_colors method member⟩

theorem ncard_range_reduce : (Set.range (family.reduce method)).ncard = family.count := by
  have palette : Set.range (family.reduce method) = ↑family.colors.toFinset := by
    ext c
    rw [Set.mem_range, exists_reduce_iff, ← mem_colors_iff, Finset.mem_coe, List.mem_toFinset]
  rw [palette, Set.ncard_coe_finset, List.toFinset_card_of_nodup family.nodup_colors, length_colors]
  cases family <;> rfl

theorem extreme_mono {full full' : Bool} (imp : full = true → full' = true) :
    extreme full ≤ extreme full' := by
  cases full with
  | false => exact UInt8.zero_le
  | true => rw [imp rfl]; exact UInt8.le_refl _

theorem eq_top_of_le {v w : UInt8} (le : v ≤ w) (top : v = 255) : w = 255 := by
  rw [top, UInt8.le_iff_toNat_le] at le
  have bound := w.toNat_lt
  exact UInt8.toNat_inj.mp (Nat.le_antisymm (Nat.le_of_lt_succ bound) le)

theorem reduce64_mono {c d : Color} (le : c.AtMost d) :
    (reduce64 method c).AtMost (reduce64 method d) := by
  have opacity := method.level_mono le.a
  unfold reduce64
  dsimp only
  split
  · exact Color.transparent_atMost _
  · rename_i visible
    -- What is more opaque can be seen as well.
    have still : method.level d.a ≠ 0 := by
      intro clear
      rw [clear] at opacity
      exact visible (UInt8.le_antisymm opacity UInt8.zero_le)
    rw [if_neg still]
    exact ⟨method.level_mono le.r, method.level_mono le.g, method.level_mono le.b, opacity⟩

theorem reduce2_mono {c d : Color} (le : c.AtMost d) :
    (reduce2 method c).AtMost (reduce2 method d) := by
  cases method with
  | nearest =>
      have brighter : extreme (Luma.isBright c.r c.g c.b) ≤ extreme (Luma.isBright d.r d.g d.b) :=
        extreme_mono (Luma.isBright_mono le.r le.g le.b)
      refine ⟨brighter, brighter, brighter, extreme_mono ?_⟩
      simp only [decide_eq_true_eq]
      exact fun half => UInt8.le_trans half le.a
  | truncate =>
      have whiter : extreme (c.r = 255 && c.g = 255 && c.b = 255) ≤
          extreme (d.r = 255 && d.g = 255 && d.b = 255) := by
        apply extreme_mono
        simp only [Bool.and_eq_true, decide_eq_true_eq]
        rintro ⟨⟨red, green⟩, blue⟩
        exact ⟨⟨eq_top_of_le le.r red, eq_top_of_le le.g green⟩, eq_top_of_le le.b blue⟩
      refine ⟨whiter, whiter, whiter, extreme_mono ?_⟩
      simp only [decide_eq_true_eq]
      exact eq_top_of_le le.a

theorem reduce_mono {c d : Color} (le : c.AtMost d) :
    (family.reduce method c).AtMost (family.reduce method d) := by
  cases family with
  | pebble64 => exact reduce64_mono method le
  | pebble2 => exact reduce2_mono method le

theorem length_colors_analyze_le_count (raster : Raster) :
    (raster.analyze family method).colors.length ≤ family.count := by
  have device : (raster.analyze family method).colors ⊆ family.colors := by
    intro c occurs
    obtain ⟨pixel, -, rfl⟩ :=
      List.mem_map.mp ((raster.mem_colors_analyze family method).mp occurs)
    exact family.reduce_mem_colors method pixel
  have few : family.colors.length = family.count := by
    rw [length_colors]
    cases family <;> rfl
  exact Nat.le_trans (length_le_of_subset (raster.nodup_colors_analyze family method) device)
    (Nat.le_of_eq few)

/-- Every reduction is a projection onto the colours of its device that keeps the order of the
channels. There are so few of these colours that their positions in any palette fit a byte. -/
theorem reduction_is_monotone_projection :
    (∀ c, family.reduce method (family.reduce method c) = family.reduce method c) ∧
    (∀ c d : Color, c.AtMost d → (family.reduce method c).AtMost (family.reduce method d)) ∧
    (∀ c, (∃ pixel, family.reduce method pixel = c) ↔ family.Shows c) ∧
    (Set.range (family.reduce method)).ncard = family.count ∧
    ∀ raster : Raster, let colors := (raster.analyze family method).colors
      colors.length ≤ family.count ∧ ∀ c ∈ raster.reduced family method,
        (Quantized.indexValue colors c).toNat = colors.idxOf c ∧
          colors[colors.idxOf c]? = some c := by
  refine ⟨family.reduce_reduce method, fun c d => family.reduce_mono method,
    fun c => family.exists_reduce_iff method, family.ncard_range_reduce method, ?_⟩
  intro raster colors
  refine ⟨family.length_colors_analyze_le_count method raster, ?_⟩
  intro c reduced
  have occurs : c ∈ colors := (raster.mem_colors_analyze family method).mpr reduced
  exact ⟨Quantized.toNat_indexValue (raster.length_colors_analyze_le family method) occurs,
    List.getElem?_idxOf occurs⟩

/-- Two colours of which the exact brightness of the first is 128 and the second has a little
more green. Only the second one becomes white. -/
theorem little_more_green_is_white :
    ∃ raster : Raster, raster.pixels = [⟨106, 147, 3, 127⟩, ⟨106, 148, 3, 128⟩] ∧
      (⟨106, 147, 3, 127⟩ : Color).AtMost ⟨106, 148, 3, 128⟩ ∧
      (⟨0, 0, 0, 0⟩ : Color).AtMost ⟨255, 255, 255, 255⟩ ∧
      (Quantized.indexValue (raster.analyze .pebble2 .nearest).colors
        ⟨255, 255, 255, 255⟩).toNat = 1 ∧
      (raster.analyze .pebble2 .nearest).colors[1]? = some ⟨255, 255, 255, 255⟩ := by
  let raster : Raster := ⟨2, 1, [⟨106, 147, 3, 127⟩, ⟨106, 148, 3, 128⟩], rfl⟩
  have dark : reduce .pebble2 .nearest ⟨106, 147, 3, 127⟩ = ⟨0, 0, 0, 0⟩ := by decide
  have light : reduce .pebble2 .nearest ⟨106, 148, 3, 128⟩ = ⟨255, 255, 255, 255⟩ := by
    decide
  have reduced : raster.reduced .pebble2 .nearest =
      [⟨0, 0, 0, 0⟩, ⟨255, 255, 255, 255⟩] := by
    rw [Raster.reduced, List.map_cons, List.map_cons, List.map_nil, dark, light]
  obtain ⟨-, ordered, -, -, indices⟩ := reduction_is_monotone_projection .pebble2 .nearest
  have below : (⟨106, 147, 3, 127⟩ : Color).AtMost ⟨106, 148, 3, 128⟩ :=
    ⟨by decide, by decide, by decide, by decide⟩
  have white : (⟨255, 255, 255, 255⟩ : Color) ∈ raster.reduced .pebble2 .nearest := by
    rw [reduced]
    simp
  have second : (raster.analyze .pebble2 .nearest).colors.idxOf ⟨255, 255, 255, 255⟩ = 1 := by
    rw [Raster.analyze, reduced]
    rfl
  have index := (indices raster).2 _ white
  rw [second] at index
  have reducedBelow := ordered _ _ below
  rw [dark, light] at reducedBelow
  exact ⟨raster, rfl, below, reducedBelow, index⟩

end Family

end ResourcePack
