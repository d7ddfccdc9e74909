import ResourcePack.Picture.Quantized

/-!
# The colours of a device

Reduction never leaves the device palette of its family: 193 colours on colour watches,
where everything that is fully transparent is one colour, and four on the others. It leaves
the colours of that palette as they are. Distinct reduced colours are therefore few enough
for their positions to fit a byte, whatever the raster.
-/

namespace ResourcePack

theorem Color.a_grey_ne_zero (level : UInt8) : (grey level).a ≠ 0 := by
  simp [grey]

namespace Method

/-- The levels of a channel. -/
def levels : List UInt8 := [0, 85, 170, 255]

theorem mem_levels {level : UInt8} :
    level ∈ levels ↔ level = 0 ∨ level = 85 ∨ level = 170 ∨ level = 255 := by
  simp [levels]

theorem level_mem_levels (method : Method) (value : UInt8) : method.level value ∈ levels := by
  have bound := value.toNat_lt
  -- Both methods count whole steps of 85, of which a byte has at most three.
  have steps (n : Nat) (hn : n ≤ 3) : UInt8.ofNat (n * 85) ∈ levels := by
    obtain rfl | rfl | rfl | rfl : n = 0 ∨ n = 1 ∨ n = 2 ∨ n = 3 := by omega
    all_goals decide
  cases method with
  | nearest => exact steps _ (by omega)
  | truncate => exact steps _ (by omega)

theorem level_of_mem_levels (method : Method) {value : UInt8} (member : value ∈ levels) :
    method.level value = value := by
  rcases mem_levels.mp member with rfl | rfl | rfl | rfl <;> cases method <;> rfl

end Method

namespace Family

/-- All colours a device shows. -/
def colors : Family → List Color
  | .pebble64 =>
    .transparent ::
      [85, 170, 255].flatMap fun a =>
        Method.levels.flatMap fun r =>
          Method.levels.flatMap fun g => Method.levels.map fun b => ⟨r, g, b, a⟩
  | .pebble2 => [0, 255].flatMap fun level => [⟨level, level, level, 0⟩, .grey level]

theorem length_colors (family : Family) :
    family.colors.length = match family with | .pebble64 => 193 | .pebble2 => 4 := by
  cases family <;> rfl

/-- Reduction ends in the device palette, opacity included. -/
theorem reduce_mem_colors (family : Family) (method : Method) (c : Color) :
    family.reduce method c ∈ family.colors := by
  cases family with
  | pebble64 =>
      simp only [reduce, reduce64]
      split
      · exact List.mem_cons_self
      · rename_i visible
        have hr := method.level_mem_levels c.r
        have hg := method.level_mem_levels c.g
        have hb := method.level_mem_levels c.b
        have ha : method.level c.a ∈ ([85, 170, 255] : List UInt8) :=
          (List.mem_cons.mp (method.level_mem_levels c.a)).resolve_left visible
        refine List.mem_cons_of_mem _ (List.mem_flatMap.mpr ⟨_, ha, ?_⟩)
        refine List.mem_flatMap.mpr ⟨_, hr, List.mem_flatMap.mpr ⟨_, hg, ?_⟩⟩
        exact List.mem_map.mpr ⟨_, hb, rfl⟩
  | pebble2 =>
      have shade (white solid : Bool) :
          (⟨extreme white, extreme white, extreme white, extreme solid⟩ : Color) ∈
            colors .pebble2 := by
        cases white <;> cases solid <;> decide
      cases method with
      | nearest => exact shade _ _
      | truncate => exact shade _ _

/-- Colours of the device stay as they are. -/
theorem reduce_of_mem_colors (family : Family) (method : Method) {c : Color}
    (member : c ∈ family.colors) :
    family.reduce method c = c := by
  cases family with
  | pebble64 =>
      rcases List.mem_cons.mp member with rfl | visible
      · cases method <;> rfl
      · obtain ⟨a, ha, visible⟩ := List.mem_flatMap.mp visible
        obtain ⟨r, hr, visible⟩ := List.mem_flatMap.mp visible
        obtain ⟨g, hg, visible⟩ := List.mem_flatMap.mp visible
        obtain ⟨b, hb, rfl⟩ := List.mem_map.mp visible
        have opacity := method.level_of_mem_levels (List.mem_cons_of_mem 0 ha)
        have some : a ≠ 0 := by
          rintro rfl
          exact absurd ha (by decide)
        simp only [reduce, reduce64, opacity, if_neg some, method.level_of_mem_levels hr,
          method.level_of_mem_levels hg, method.level_of_mem_levels hb]
  | pebble2 =>
      have four : c = ⟨0, 0, 0, 0⟩ ∨ c = .grey 0 ∨ c = ⟨255, 255, 255, 0⟩ ∨ c = .grey 255 := by
        simpa [colors] using member
      rcases four with rfl | rfl | rfl | rfl <;> cases method <;> decide

theorem reduce_reduce (family : Family) (method : Method) (c : Color) :
    family.reduce method (family.reduce method c) = family.reduce method c :=
  family.reduce_of_mem_colors method (family.reduce_mem_colors method c)

/-- In particular a grey that comes out of a reduction has one of the four levels. -/
theorem r_reduce_mem_levels (family : Family) (method : Method) (c : Color) :
    (family.reduce method c).r ∈ Method.levels := by
  have full (white : Bool) : extreme white ∈ Method.levels := by
    cases white <;> decide
  cases family with
  | pebble64 =>
      simp only [reduce, reduce64]
      split
      · decide
      · exact method.level_mem_levels c.r
  | pebble2 =>
      cases method with
      | nearest => exact full _
      | truncate => exact full _

end Family

end ResourcePack
