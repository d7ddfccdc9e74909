import ResourcePack.Build.Source
import ResourcePack.Proofs.Outcome

/-!
# The settings of pictures

A manifest names the palette of its pack and, for each picture, perhaps a method and a
depth. There are two names of palettes, two of methods, and four depths. A picture with
settings out of these has a source that follows them. One with others has none, for the
method if that is unknown and else for the depth.
-/

namespace ResourcePack

theorem Family.parse_eq_ok_iff {text : String} {family : Family} :
    Family.parse text = .ok family ↔ family.name = text := by
  cases family <;> grind [Family.parse, Family.name]

theorem Family.parse_eq_error_iff {text : String} {cause : Picture.Error} :
    Family.parse text = .error cause ↔
      text ∉ ["pebble64", "pebble2"] ∧ cause = .unknownFamily text := by
  grind [Family.parse]

theorem Family.exists_parse_iff {text : String} :
    (∃ family, Family.parse text = .ok family) ↔ text ∈ ["pebble64", "pebble2"] := by
  simp only [Family.parse_eq_ok_iff, List.mem_cons, List.not_mem_nil, or_false]
  constructor
  · rintro ⟨_ | _, rfl⟩
    · exact .inl rfl
    · exact .inr rfl
  · rintro (rfl | rfl)
    · exact ⟨.pebble64, rfl⟩
    · exact ⟨.pebble2, rfl⟩

theorem Method.parse_eq_ok_iff {text : String} {method : Method} :
    Method.parse text = .ok method ↔ method.name = text := by
  cases method <;> grind [Method.parse, Method.name]

theorem Method.parse_eq_error_iff {text : String} {cause : Picture.Error} :
    Method.parse text = .error cause ↔
      text ∉ ["nearest", "truncate"] ∧ cause = .unknownMethod text := by
  grind [Method.parse]

theorem Depth.ofBits_eq_ok_iff {bits : UInt8} {depth : Depth} :
    Depth.ofBits bits = .ok depth ↔ UInt8.ofNat depth.bits = bits := by
  constructor
  · intro known
    unfold Depth.ofBits at known
    repeat' split at known
    any_goals cases known
    all_goals
      symm
      assumption
  · rintro rfl
    exact depth.ofBits_bits

theorem Depth.ofBits_eq_error_iff {bits : UInt8} {cause : Picture.Error} :
    Depth.ofBits bits = .error cause ↔ bits ∉ [1, 2, 4, 8] ∧ cause = .invalidDepth bits := by
  grind [Depth.ofBits]

namespace Manifest

/-- What keeps a picture from being reduced as described. -/
inductive Descriptor.Misfit : Descriptor → Picture.Error → Prop
  | method {path name : String} {depth : Option UInt8} (unknown : name ∉ ["nearest", "truncate"]) :
      Misfit (.image path (some name) depth) (.unknownMethod name)
  | depth {path : String} {method : Option String} {bits : UInt8}
      (known : ∀ name ∈ method, name ∈ ["nearest", "truncate"]) (outside : bits ∉ [1, 2, 4, 8]) :
      Misfit (.image path method (some bits)) (.invalidDepth bits)

/-- The source that a descriptor stands for. -/
inductive Descriptor.Means (root : Path) (family : Family) : Descriptor → Source → Prop
  | file {path : String} : Means root family (.file path) (.file (root.join ⟨path⟩))
  | extract {pack : String} {index : Int32} :
      Means root family (.extract pack index) (.extract (root.join ⟨pack⟩) index)
  | image {path : String} {method : Option String} {depth : Option UInt8}
      {options : ConvertOptions} (palette : options.family = family)
      (reduction : options.method.name = method.getD "nearest")
      (size : options.depth.map (UInt8.ofNat ·.bits) = depth) :
      Means root family (.image path method depth) (.image (root.join ⟨path⟩) options)

end Manifest

namespace Source

open Manifest (Descriptor)

variable {root : Path} {family : Family}

theorem imageOptions_eq_ok {method : Option String} {depth : Option UInt8}
    {options : ConvertOptions} (made : imageOptions family method depth = .ok options) :
    options.family = family ∧ options.method.name = method.getD "nearest" ∧
      options.depth.map (UInt8.ofNat ·.bits) = depth := by
  obtain ⟨known, parsed, made⟩ := Outcome.bind_eq_ok.mp made
  obtain ⟨size, fits, made⟩ := Outcome.bind_eq_ok.mp made
  cases made
  refine ⟨rfl, ?_, ?_⟩
  · cases Outcome.optional_eq_ok_iff.mp parsed with
    | none => rfl
    | some named => exact Method.parse_eq_ok_iff.mp named
  · cases Outcome.optional_eq_ok_iff.mp fits with
    | none => rfl
    | some sized => exact congrArg some (Depth.ofBits_eq_ok_iff.mp sized)

theorem means_of_ofDescriptor {descriptor : Descriptor} {source : Source}
    (made : ofDescriptor root family descriptor = .ok source) :
    descriptor.Means root family source := by
  cases descriptor with
  | file path =>
      cases made
      exact .file
  | extract pack index =>
      cases made
      exact .extract
  | image path method depth =>
      obtain ⟨options, set, made⟩ := Outcome.bind_eq_ok.mp made
      cases made
      obtain ⟨palette, reduction, size⟩ := imageOptions_eq_ok set
      exact .image palette reduction size

theorem exists_parsed_iff {method : Option String} :
    (∃ parsed, method.mapM Method.parse = .ok parsed) ↔
      ∀ name ∈ method, name ∈ ["nearest", "truncate"] := by
  simp only [Outcome.exists_ok_iff, ne_eq, Outcome.optional_eq_error_iff,
    Method.parse_eq_error_iff]
  cases method with
  | none => simp
  | some name =>
      simp only [Option.some.injEq, exists_eq_left', Option.mem_some_iff, forall_eq']
      constructor
      · intro succeeds
        exact Decidable.of_not_not fun unknown => succeeds _ ⟨unknown, rfl⟩
      · rintro known cause ⟨unknown, -⟩
        exact unknown known

theorem imageOptions_eq_error_iff {path : String} {method : Option String} {depth : Option UInt8}
    {cause : Picture.Error} :
    imageOptions family method depth = .error cause ↔
      (Descriptor.image path method depth).Misfit cause := by
  unfold imageOptions
  rw [Outcome.bind_eq_error, Outcome.optional_eq_error_iff]
  constructor
  · rintro (⟨name, rfl, unparsed⟩ | ⟨known, parsed, failed⟩)
    · obtain ⟨unknown, rfl⟩ := Method.parse_eq_error_iff.mp unparsed
      exact .method unknown
    · obtain unfit | ⟨size, -, last⟩ := Outcome.bind_eq_error.mp failed
      · obtain ⟨bits, rfl, unsized⟩ := Outcome.optional_eq_error_iff.mp unfit
        obtain ⟨outside, rfl⟩ := Depth.ofBits_eq_error_iff.mp unsized
        exact .depth (exists_parsed_iff.mp ⟨known, parsed⟩) outside
      · cases last
  · rintro (unknown | ⟨known, outside⟩)
    · exact .inl ⟨_, rfl, Method.parse_eq_error_iff.mpr ⟨unknown, rfl⟩⟩
    · obtain ⟨parsed, parses⟩ := exists_parsed_iff.mpr known
      refine .inr ⟨parsed, parses, Outcome.bind_eq_error.mpr (.inl ?_)⟩
      exact Outcome.optional_eq_error_iff.mpr
        ⟨_, rfl, Depth.ofBits_eq_error_iff.mpr ⟨outside, rfl⟩⟩

theorem ofDescriptor_eq_error_iff {descriptor : Descriptor} {cause : Picture.Error} :
    ofDescriptor root family descriptor = .error cause ↔ descriptor.Misfit cause := by
  cases descriptor with
  | file path => exact iff_of_false nofun nofun
  | extract pack index => exact iff_of_false nofun nofun
  | image path method depth =>
      rw [ofDescriptor, Outcome.bind_eq_error, imageOptions_eq_error_iff]
      constructor
      · rintro (misfit | ⟨options, -, last⟩)
        · exact misfit
        · cases last
      · exact .inl

end Source

end ResourcePack
