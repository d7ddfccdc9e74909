import Mathlib.Data.List.Forall2
import Mathlib.Data.List.Nodup
import ResourcePack.Manifest.Validation
import ResourcePack.Proofs.Outcome

/-!
# Sound manifests and first defects

What makes a manifest sound is said without an order. Which defect is reported is a matter of
order: the palette comes first, then the resources as they are listed, and for each of them
its name, its name among those before it, and its input. Everything after the first defect,
and every field that the kind of an input has no use for, might as well be something else.
-/

namespace ResourcePack

namespace References

/-- Names are declared once, so what is found is what is declared. -/
theorem find?_eq_some_iff {references : References} {name path : String} :
    references.find? name = some path ↔ (name, path) ∈ references.entries := by
  obtain ⟨entries, sorted⟩ := references
  change entries.lookup name = some path ↔ (name, path) ∈ entries
  induction entries with
  | nil => simp
  | cons entry entries ih =>
      obtain ⟨first, others⟩ := List.pairwise_cons.mp sorted
      obtain ⟨key, value⟩ := entry
      by_cases here : name = key
      · subst here
        have once : (name, path) ∉ entries := fun later => String.lt_irrefl name (first _ later)
        simp [once, eq_comm]
      · have apart : (name == key) = false := by simpa using here
        simp [List.lookup_cons, apart, here, ih others]

theorem find?_eq_none_iff {references : References} {name : String} :
    references.find? name = none ↔ ∀ path, (name, path) ∉ references.entries := by
  rw [Option.eq_none_iff_forall_ne_some]
  exact forall_congr' fun path => not_congr find?_eq_some_iff

end References

namespace Manifest

namespace Input

/-- What an input describes, by its kind. -/
inductive Describes (references : References) (input : Input) : Descriptor → Prop where
  | file {path : String} (kind : input.kind = "file") (file : input.file = some path) :
    Describes references input (.file path)
  | extract {name pack : String} {index : Int32} (kind : input.kind = "resource")
    (reference : input.reference = some name) (id : input.id = some index)
    (declared : (name, pack) ∈ references.entries) :
    Describes references input (.extract pack index)
  | image {path : String} (kind : input.kind = "image") (file : input.file = some path) :
    Describes references input (.image path input.method input.depth)

/-- What is wrong with the input of a resource. -/
inductive Lacks (references : References) (resource : String) (input : Input) : Error → Prop where
  | file (kind : input.kind = "file" ∨ input.kind = "image") (missing : input.file = none) :
    Lacks references resource input (.missingField resource input.kind "file")
  | reference (kind : input.kind = "resource") (missing : input.reference = none) :
    Lacks references resource input (.missingField resource input.kind "ref")
  | id (kind : input.kind = "resource") (reference : input.reference.isSome = true)
    (missing : input.id = none) :
    Lacks references resource input (.missingField resource input.kind "id")
  | undeclared {name : String} (kind : input.kind = "resource")
    (reference : input.reference = some name) (id : input.id.isSome = true)
    (missing : ∀ path, (name, path) ∉ references.entries) :
    Lacks references resource input (.unknownReference resource name)
  | kind (other : input.kind ∉ ["file", "resource", "image"]) :
    Lacks references resource input (.unknownKind resource input.kind)

/-- An input that has what its kind needs: a file, or the index of a resource in a declared
pack. -/
def Complete (references : References) (input : Input) : Prop :=
  (input.kind = "file" ∨ input.kind = "image") ∧ input.file.isSome = true ∨
  input.kind = "resource" ∧ input.id.isSome = true ∧
    ∃ name pack, input.reference = some name ∧ (name, pack) ∈ references.entries

/-- Two inputs of one kind that agree in the fields it cannot do without. -/
structure SameUse (input other : Input) : Prop where
  kind : other.kind = input.kind
  file : input.kind = "file" ∨ input.kind = "image" → other.file = input.file
  reference : input.kind = "resource" → other.reference = input.reference
  id : input.kind = "resource" → other.id = input.id

variable {references : References} {resource : String} {input : Input}

theorem need_eq_ok_iff {α : Type} {field : String} {given : Option α} {value : α} :
    input.need resource field given = .ok value ↔ given = some value := by
  cases given <;> simp [need]

theorem need_eq_error_iff {α : Type} {field : String} {given : Option α} {cause : Error} :
    input.need resource field given = .error cause ↔
      given = none ∧ cause = .missingField resource input.kind field := by
  cases given <;> simp [need, eq_comm]

theorem descriptor_of_file (kind : input.kind = "file") :
    input.descriptor resource references =
      (input.need resource "file" input.file).map .file := by
  rw [descriptor, if_pos kind]
  rfl

theorem descriptor_of_image (kind : input.kind = "image") :
    input.descriptor resource references =
      (input.need resource "file" input.file).map (.image · input.method input.depth) := by
  simp only [descriptor, kind]
  rfl

theorem descriptor_of_resource (kind : input.kind = "resource") :
    input.descriptor resource references = (do
      let name ← input.need resource "ref" input.reference
      let index ← input.need resource "id" input.id
      match references.find? name with
      | some pack => .ok (.extract pack index)
      | none => .error (.unknownReference resource name)) := by
  simp only [descriptor, kind]
  rfl

theorem descriptor_of_other (other : input.kind ∉ ["file", "resource", "image"]) :
    input.descriptor resource references = .error (.unknownKind resource input.kind) := by
  simp only [List.mem_cons, List.not_mem_nil, or_false, not_or] at other
  rw [descriptor, if_neg other.1, if_neg other.2.1, if_neg other.2.2]

theorem descriptor_eq_ok_iff {descriptor : Descriptor} :
    input.descriptor resource references = .ok descriptor ↔
      input.Describes references descriptor := by
  constructor
  · intro made
    by_cases known : input.kind ∈ ["file", "resource", "image"]
    · simp only [List.mem_cons, List.not_mem_nil, or_false] at known
      rcases known with kind | kind | kind
      · rw [descriptor_of_file kind, Outcome.map_eq_ok] at made
        obtain ⟨path, file, rfl⟩ := made
        exact .file kind (need_eq_ok_iff.mp file)
      · rw [descriptor_of_resource kind] at made
        obtain ⟨name, reference, made⟩ := Outcome.bind_eq_ok.mp made
        obtain ⟨index, id, made⟩ := Outcome.bind_eq_ok.mp made
        split at made
        · rename_i pack found
          cases made
          exact .extract kind (need_eq_ok_iff.mp reference) (need_eq_ok_iff.mp id)
            (References.find?_eq_some_iff.mp found)
        · cases made
      · rw [descriptor_of_image kind, Outcome.map_eq_ok] at made
        obtain ⟨path, file, rfl⟩ := made
        exact .image kind (need_eq_ok_iff.mp file)
    · rw [descriptor_of_other known] at made
      cases made
  · intro describes
    cases describes with
    | file kind file => rw [descriptor_of_file kind, file, need, Except.map]
    | extract kind reference id declared =>
        have found := References.find?_eq_some_iff.mpr declared
        rw [descriptor_of_resource kind, reference, id]
        simp only [need, bind, Except.bind, found]
    | image kind file => rw [descriptor_of_image kind, file, need, Except.map]

theorem descriptor_eq_error_iff {cause : Error} :
    input.descriptor resource references = .error cause ↔
      input.Lacks references resource cause := by
  constructor
  · intro failed
    by_cases known : input.kind ∈ ["file", "resource", "image"]
    · simp only [List.mem_cons, List.not_mem_nil, or_false] at known
      rcases known with kind | kind | kind
      · rw [descriptor_of_file kind, Outcome.map_eq_error, need_eq_error_iff] at failed
        obtain ⟨missing, rfl⟩ := failed
        exact .file (.inl kind) missing
      · rw [descriptor_of_resource kind] at failed
        obtain failed | ⟨name, reference, failed⟩ := Outcome.bind_eq_error.mp failed
        · obtain ⟨missing, rfl⟩ := need_eq_error_iff.mp failed
          exact .reference kind missing
        have reference := need_eq_ok_iff.mp reference
        obtain failed | ⟨index, id, failed⟩ := Outcome.bind_eq_error.mp failed
        · obtain ⟨missing, rfl⟩ := need_eq_error_iff.mp failed
          exact .id kind (Option.isSome_of_eq_some reference) missing
        split at failed
        · cases failed
        · rename_i missing
          cases failed
          exact .undeclared kind reference (Option.isSome_of_eq_some (need_eq_ok_iff.mp id))
            (References.find?_eq_none_iff.mp missing)
      · rw [descriptor_of_image kind, Outcome.map_eq_error, need_eq_error_iff] at failed
        obtain ⟨missing, rfl⟩ := failed
        exact .file (.inr kind) missing
    · rw [descriptor_of_other known] at failed
      cases failed
      exact .kind known
  · intro lacks
    cases lacks with
    | file kind missing =>
        rcases kind with kind | kind
        · rw [descriptor_of_file kind, Outcome.map_eq_error, need_eq_error_iff]
          exact ⟨missing, rfl⟩
        · rw [descriptor_of_image kind, Outcome.map_eq_error, need_eq_error_iff]
          exact ⟨missing, rfl⟩
    | reference kind missing =>
        rw [descriptor_of_resource kind, missing]
        rfl
    | id kind reference missing =>
        obtain ⟨name, reference⟩ := Option.isSome_iff_exists.mp reference
        rw [descriptor_of_resource kind, reference, missing]
        rfl
    | undeclared kind reference id missing =>
        obtain ⟨index, id⟩ := Option.isSome_iff_exists.mp id
        rw [descriptor_of_resource kind, reference, id]
        simp only [need, bind, Except.bind, References.find?_eq_none_iff.mpr missing]
    | kind other => exact descriptor_of_other other

theorem exists_describes_iff :
    (∃ descriptor, input.Describes references descriptor) ↔ input.Complete references := by
  constructor
  · rintro ⟨_, describes⟩
    cases describes with
    | file kind file => exact .inl ⟨.inl kind, Option.isSome_of_eq_some file⟩
    | extract kind reference id declared =>
        exact .inr ⟨kind, Option.isSome_of_eq_some id, _, _, reference, declared⟩
    | image kind file => exact .inl ⟨.inr kind, Option.isSome_of_eq_some file⟩
  · rintro (⟨kind | kind, given⟩ | ⟨kind, given, name, pack, reference, declared⟩)
    · obtain ⟨path, file⟩ := Option.isSome_iff_exists.mp given
      exact ⟨_, .file kind file⟩
    · obtain ⟨path, file⟩ := Option.isSome_iff_exists.mp given
      exact ⟨_, .image kind file⟩
    · obtain ⟨index, id⟩ := Option.isSome_iff_exists.mp given
      exact ⟨_, .extract kind reference id declared⟩

theorem SameUse.symm {other : Input} (same : input.SameUse other) : other.SameUse input where
  kind := same.kind.symm
  file kind := (same.file (by rwa [← same.kind])).symm
  reference kind := (same.reference (by rwa [← same.kind])).symm
  id kind := (same.id (by rwa [← same.kind])).symm

/-- Fields that a kind has no use for do not make a defect, nor take one away. -/
theorem Lacks.of_sameUse {other : Input} {cause : Error}
    (lacks : input.Lacks references resource cause) (same : input.SameUse other) :
    other.Lacks references resource cause := by
  obtain ⟨sameKind, sameFile, sameReference, sameId⟩ := same
  cases lacks with
  | file kind missing =>
      rw [← sameKind]
      exact .file (by rwa [sameKind]) (by rw [sameFile kind, missing])
  | reference kind missing =>
      rw [← sameKind]
      exact .reference (by rwa [sameKind]) (by rw [sameReference kind, missing])
  | id kind reference missing =>
      rw [← sameKind]
      exact .id (by rwa [sameKind]) (by rwa [sameReference kind]) (by rw [sameId kind, missing])
  | undeclared kind reference id missing =>
      exact .undeclared (by rwa [sameKind]) (by rwa [sameReference kind]) (by rwa [sameId kind])
        missing
  | kind unknown =>
      rw [← sameKind]
      exact .kind (by rwa [sameKind])

end Input

namespace Resource

/-- The name of a resource without the blanks around it. -/
def symbol (resource : Resource) : String := Text.trim resource.name

/-- What is wrong with the resource in a place, counted from 1, after names that are used. -/
inductive Defect (references : References) (place : Nat) (used : List String)
    (resource : Resource) : Error → Prop where
  | unnamed (empty : resource.symbol = "") :
    Defect references place used resource (.emptyName place)
  | repeated (named : resource.symbol ≠ "") (before : resource.symbol ∈ used) :
    Defect references place used resource (.duplicateName resource.symbol)
  | input {cause : Error} (named : resource.symbol ≠ "") (new : resource.symbol ∉ used)
    (lacks : resource.input.Lacks references resource.symbol cause) :
    Defect references place used resource cause

/-- What validation does with one resource. -/
def check (references : References) (place : Nat) (used : List String) (resource : Resource) :
    Except Error Declared :=
  if resource.symbol = "" then .error (.emptyName place)
  else if resource.symbol ∈ used then .error (.duplicateName resource.symbol)
  else (resource.input.descriptor resource.symbol references).map (⟨resource.symbol, ·⟩)

/-- A resource and what it is declared as. -/
structure Declares (references : References) (resource : Resource)
    (declared : Declared) : Prop where
  name : declared.name = resource.symbol
  descriptor : resource.input.Describes references declared.descriptor

variable {references : References} {place : Nat} {used : List String} {resource : Resource}

theorem check_eq_ok_iff {declared : Declared} :
    resource.check references place used = .ok declared ↔
      resource.symbol ≠ "" ∧ resource.symbol ∉ used ∧ resource.Declares references declared := by
  unfold check
  split
  · rename_i empty
    exact iff_of_false nofun fun sound => sound.1 empty
  split
  · rename_i named before
    exact iff_of_false nofun fun sound => sound.2.1 before
  · rename_i named new
    simp only [Outcome.map_eq_ok, Input.descriptor_eq_ok_iff]
    constructor
    · rintro ⟨descriptor, describes, rfl⟩
      exact ⟨named, new, rfl, describes⟩
    · rintro ⟨-, -, name, describes⟩
      exact ⟨_, describes, by rw [← name]⟩

theorem check_eq_error_iff {cause : Error} :
    resource.check references place used = .error cause ↔
      resource.Defect references place used cause := by
  unfold check
  constructor
  · intro failed
    split at failed
    · rename_i empty
      cases failed
      exact .unnamed empty
    split at failed
    · rename_i named before
      cases failed
      exact .repeated named before
    · rename_i named new
      exact .input named new (Input.descriptor_eq_error_iff.mp (Outcome.map_eq_error.mp failed))
  · intro defect
    cases defect with
    | unnamed empty => rw [if_pos empty]
    | repeated named before => rw [if_neg named, if_pos before]
    | input named new lacks =>
        rw [if_neg named, if_neg new, Outcome.map_eq_error]
        exact Input.descriptor_eq_error_iff.mpr lacks

/-- The order of the names before does not matter. -/
theorem Defect.congr {others : List String} (same : ∀ name, name ∈ used ↔ name ∈ others)
    {cause : Error} : resource.Defect references place used cause ↔
      resource.Defect references place others cause := by
  rw [← check_eq_error_iff, ← check_eq_error_iff, check, check]
  simp only [same]

/-- Two resources that cannot be told apart by what is wrong with them. -/
structure Alike (resource other : Resource) : Prop where
  symbol : other.symbol = resource.symbol
  input : resource.input.SameUse other.input

theorem Alike.symm {other : Resource} (alike : resource.Alike other) : other.Alike resource where
  symbol := alike.symbol.symm
  input := alike.input.symm

theorem Defect.of_alike {other : Resource} {cause : Error}
    (defect : resource.Defect references place used cause) (alike : resource.Alike other) :
    other.Defect references place used cause := by
  obtain ⟨symbol, input⟩ := alike
  cases defect with
  | unnamed empty => exact .unnamed (symbol.trans empty)
  | repeated named before =>
      rw [← symbol] at named before ⊢
      exact .repeated named before
  | input named new lacks =>
      rw [← symbol] at named new lacks
      exact .input named new (lacks.of_sameUse input)

end Resource

theorem declare_cons (references : References) (position : Nat) (used : List String)
    (resource : Resource) (rest : List Resource) :
    declare references position used (resource :: rest) =
      (resource.check references (position + 1) used).bind fun declared =>
        (declare references (position + 1) (resource.symbol :: used) rest).map (declared :: ·) := by
  by_cases empty : resource.symbol = ""
  · have blank : Text.trim resource.name = "" := empty
    simp only [declare, Resource.check, if_pos blank, if_pos empty]
    rfl
  have named : ¬ Text.trim resource.name = "" := empty
  by_cases before : resource.symbol ∈ used
  · have again : Text.trim resource.name ∈ used := before
    simp only [declare, Resource.check, if_neg named, if_neg empty, if_pos again, if_pos before]
    rfl
  · have new : ¬ Text.trim resource.name ∈ used := before
    simp only [declare, Resource.check, if_neg named, if_neg empty, if_neg new, if_neg before]
    change (resource.input.descriptor resource.symbol references >>= fun _ => _) = _
    cases resource.input.descriptor resource.symbol references <;> rfl

/-- What is wrong with the resource at a position of a list, given the names that are used
before the list and those before it in the list. -/
def DefectIn (references : References) (position : Nat) (used : List String)
    (resources : List Resource) (i : Nat) (cause : Error) : Prop :=
  ∃ resource, resources[i]? = some resource ∧
    resource.Defect references (position + i + 1)
      (used ++ (resources.take i).map Resource.symbol) cause

theorem defectIn_zero {references : References} {position : Nat} {used : List String}
    {resource : Resource} {rest : List Resource} {cause : Error} :
    DefectIn references position used (resource :: rest) 0 cause ↔
      resource.check references (position + 1) used = .error cause := by
  simp [DefectIn, Resource.check_eq_error_iff]

theorem defectIn_succ {references : References} {position : Nat} {used : List String}
    {resource : Resource} {rest : List Resource} {i : Nat} {cause : Error} :
    DefectIn references position used (resource :: rest) (i + 1) cause ↔
      DefectIn references (position + 1) (resource.symbol :: used) rest i cause := by
  have place : position + (i + 1) + 1 = position + 1 + i + 1 := by omega
  rw [DefectIn, DefectIn, List.getElem?_cons_succ, List.take_succ_cons, List.map_cons, place]
  refine exists_congr fun later => and_congr_right fun _ => Resource.Defect.congr ?_
  intro name
  simp only [List.mem_append, List.mem_cons]
  tauto

/-- Resources are refused for the first of them that has a defect. -/
theorem declare_eq_error_iff {references : References} {position : Nat} {used : List String}
    {resources : List Resource} {cause : Error} :
    declare references position used resources = .error cause ↔
      ∃ i, DefectIn references position used resources i cause ∧
        ∀ j < i, ∀ other, ¬ DefectIn references position used resources j other := by
  induction resources generalizing position used with
  | nil => simp [declare, DefectIn]
  | cons resource rest ih =>
      rw [declare_cons]
      cases here : resource.check references (position + 1) used with
      | error first =>
          have defect : DefectIn references position used (resource :: rest) 0 first :=
            defectIn_zero.mpr here
          constructor
          · rintro ⟨⟩
            exact ⟨0, defect, nofun⟩
          · rintro ⟨i, there, none⟩
            cases i with
            | zero =>
                rw [defectIn_zero, here] at there
                cases there
                rfl
            | succ i => exact absurd defect (none 0 (Nat.succ_pos i) first)
      | ok declared =>
          have sound (other : Error) :
              ¬ DefectIn references position used (resource :: rest) 0 other := by
            rw [defectIn_zero, here]
            nofun
          rw [Except.bind, Outcome.map_eq_error, ih]
          constructor
          · rintro ⟨i, there, none⟩
            refine ⟨i + 1, defectIn_succ.mpr there, ?_⟩
            rintro (_ | j) before other
            · exact sound other
            · exact mt defectIn_succ.mp (none j (Nat.lt_of_succ_lt_succ before) other)
          · rintro ⟨_ | i, there, none⟩
            · exact absurd there (sound cause)
            · refine ⟨i, defectIn_succ.mp there, ?_⟩
              intro j before other
              exact mt defectIn_succ.mpr (none (j + 1) (Nat.succ_lt_succ before) other)

/-- Resources that are all sound, with new and different names, are declared in order. -/
theorem declare_eq_ok_iff {references : References} {position : Nat} {used : List String}
    {resources : List Resource} {all : List Declared} :
    declare references position used resources = .ok all ↔
      (∀ resource ∈ resources, resource.symbol ≠ "" ∧ resource.symbol ∉ used) ∧
      (resources.map Resource.symbol).Nodup ∧
      List.Forall₂ (Resource.Declares references) resources all := by
  induction resources generalizing position used all with
  | nil =>
      cases all with
      | nil => simp [declare]
      | cons _ _ => exact iff_of_false nofun nofun
  | cons resource rest ih =>
      rw [declare_cons]
      constructor
      · intro made
        obtain ⟨declared, here, made⟩ := Outcome.bind_eq_ok.mp made
        obtain ⟨later, others, rfl⟩ := Outcome.map_eq_ok.mp made
        obtain ⟨named, new, declares⟩ := Resource.check_eq_ok_iff.mp here
        obtain ⟨apart, distinct, each⟩ := ih.mp others
        refine ⟨?_, List.nodup_cons.mpr ⟨?_, distinct⟩, .cons declares each⟩
        · rintro other (_ | ⟨_, member⟩)
          · exact ⟨named, new⟩
          · obtain ⟨named, new⟩ := apart other member
            exact ⟨named, fun before => new (List.mem_cons_of_mem _ before)⟩
        · intro again
          obtain ⟨other, member, same⟩ := List.mem_map.mp again
          exact (apart other member).2 (same ▸ List.mem_cons_self)
      · rintro ⟨apart, distinct, each⟩
        obtain ⟨declared, later, declares, remaining, rfl⟩ := List.forall₂_cons_left_iff.mp each
        obtain ⟨fresh, distinct⟩ := List.nodup_cons.mp distinct
        obtain ⟨named, new⟩ := apart resource List.mem_cons_self
        have others : declare references (position + 1) (resource.symbol :: used) rest =
            .ok later := by
          refine ih.mpr ⟨?_, distinct, remaining⟩
          intro other member
          obtain ⟨named, new⟩ := apart other (List.mem_cons_of_mem _ member)
          refine ⟨named, ?_⟩
          intro before
          rcases List.mem_cons.mp before with same | before
          · exact fresh (same ▸ List.mem_map_of_mem member)
          · exact new before
        rw [Resource.check_eq_ok_iff.mpr ⟨named, new, declares⟩, Except.bind, others]
        rfl

/-! ## Manifests -/

/-- The palette is set to more than blanks. -/
def HasPalette (manifest : Manifest) : Prop :=
  ∃ palette, manifest.palette = some palette ∧ Text.trim palette ≠ ""

/-- What is wrong with the resource at a position, given those before it. -/
def DefectAt (manifest : Manifest) (i : Nat) (cause : Error) : Prop :=
  ∃ resource, manifest.resources[i]? = some resource ∧
    resource.Defect manifest.references (i + 1)
      ((manifest.resources.take i).map Resource.symbol) cause

/-- The defect that comes first. -/
inductive FirstDefect (manifest : Manifest) : Error → Prop where
  | palette (unset : ¬ manifest.HasPalette) : FirstDefect manifest .missingPalette
  | resource {i : Nat} {cause : Error} (palette : manifest.HasPalette)
    (there : manifest.DefectAt i cause) (none : ∀ j < i, ∀ other, ¬ manifest.DefectAt j other) :
    FirstDefect manifest cause

/-- A manifest without defects. -/
structure Sound (manifest : Manifest) : Prop where
  palette : manifest.HasPalette
  named : ∀ resource ∈ manifest.resources, resource.symbol ≠ ""
  distinct : (manifest.resources.map Resource.symbol).Nodup
  complete : ∀ resource ∈ manifest.resources, resource.input.Complete manifest.references

variable {manifest : Manifest}

theorem validate_of_unset (unset : ¬ manifest.HasPalette) :
    manifest.validate = .error .missingPalette := by
  have none : manifest.palette? = none := by
    rw [palette?, Option.filter_eq_none_iff]
    intro palette given
    obtain ⟨written, set, rfl⟩ := Option.map_eq_some_iff.mp given
    have blank : Text.trim written = "" := by
      by_contra more
      exact unset ⟨written, set, more⟩
    simpa using blank
  rw [validate, none]

theorem validate_of_set {palette : String} (set : manifest.palette = some palette)
    (more : Text.trim palette ≠ "") :
    manifest.validate = (declare manifest.references 0 [] manifest.resources).map
      (⟨manifest.references, Text.trim palette, ·⟩) := by
  have some : manifest.palette? = some (Text.trim palette) := by
    rw [palette?, set, Option.map_some, Option.filter_some, if_pos (by simpa using more)]
  rw [validate, some]
  rfl

theorem defectIn_start {i : Nat} {cause : Error} :
    DefectIn manifest.references 0 [] manifest.resources i cause ↔ manifest.DefectAt i cause := by
  rw [DefectIn, DefectAt, Nat.zero_add, List.nil_append]

theorem validate_eq_error_iff {cause : Error} :
    manifest.validate = .error cause ↔ manifest.FirstDefect cause := by
  by_cases palette : manifest.HasPalette
  · obtain ⟨written, set, more⟩ := palette
    rw [validate_of_set set more, Outcome.map_eq_error, declare_eq_error_iff]
    simp only [defectIn_start]
    constructor
    · rintro ⟨i, there, none⟩
      exact .resource ⟨written, set, more⟩ there none
    · rintro (unset | ⟨palette, there, none⟩)
      · exact absurd ⟨written, set, more⟩ unset
      · exact ⟨_, there, none⟩
  · rw [validate_of_unset palette]
    constructor
    · rintro ⟨⟩
      exact .palette palette
    · rintro (unset | ⟨set, -, -⟩)
      · rfl
      · exact absurd set palette

/-- What a sound manifest is validated to. -/
structure Validates (manifest : Manifest) (validated : Validated) : Prop where
  palette : manifest.palette.map Text.trim = some validated.palette
  references : validated.references = manifest.references
  resources : List.Forall₂ (Resource.Declares manifest.references) manifest.resources
    validated.resources

theorem validate_eq_ok_iff {validated : Validated} :
    manifest.validate = .ok validated ↔
      manifest.HasPalette ∧ (∀ resource ∈ manifest.resources, resource.symbol ≠ "") ∧
        (manifest.resources.map Resource.symbol).Nodup ∧ manifest.Validates validated := by
  by_cases palette : manifest.HasPalette
  · obtain ⟨written, set, more⟩ := palette
    rw [validate_of_set set more, Outcome.map_eq_ok]
    simp only [declare_eq_ok_iff, List.not_mem_nil, not_false_eq_true, and_true]
    constructor
    · rintro ⟨all, ⟨named, distinct, each⟩, rfl⟩
      exact ⟨⟨written, set, more⟩, named, distinct, by rw [set]; rfl, rfl, each⟩
    · rintro ⟨-, named, distinct, trimmed, same, each⟩
      refine ⟨_, ⟨named, distinct, each⟩, ?_⟩
      rw [set, Option.map_some, Option.some.injEq] at trimmed
      rw [trimmed, ← same]
  · rw [validate_of_unset palette]
    exact iff_of_false nofun fun sound => palette sound.1

theorem exists_validate_iff :
    (∃ validated, manifest.validate = .ok validated) ↔ manifest.Sound := by
  constructor
  · rintro ⟨validated, valid⟩
    obtain ⟨palette, named, distinct, -, -, each⟩ := validate_eq_ok_iff.mp valid
    refine ⟨palette, named, distinct, ?_⟩
    intro resource member
    obtain ⟨declared, -, declares⟩ := Outcome.exists_result each resource member
    exact Input.exists_describes_iff.mp ⟨_, declares.descriptor⟩
  · rintro ⟨palette, named, distinct, complete⟩
    obtain ⟨written, set, more⟩ := palette
    have declared : ∀ resource ∈ manifest.resources,
        ∃ declared, Resource.Declares manifest.references resource declared := by
      intro resource member
      obtain ⟨descriptor, describes⟩ := Input.exists_describes_iff.mpr (complete resource member)
      exact ⟨⟨resource.symbol, descriptor⟩, rfl, describes⟩
    obtain ⟨all, each⟩ := Outcome.exists_results declared
    exact ⟨⟨manifest.references, Text.trim written, all⟩, validate_eq_ok_iff.mpr
      ⟨⟨written, set, more⟩, named, distinct, by rw [set]; rfl, rfl, each⟩⟩

theorem map_symbol_of_alike {resources others : List Resource}
    (alike : List.Forall₂ Resource.Alike resources others) :
    others.map Resource.symbol = resources.map Resource.symbol := by
  induction alike with
  | nil => rfl
  | cons here _ ih => rw [List.map_cons, List.map_cons, here.symbol, ih]

/-- Manifests whose resources are alike up to a position have the same defects up to there. -/
theorem DefectAt.of_alike {other : Manifest} {i j : Nat} {cause : Error}
    (there : manifest.DefectAt j cause) (references : other.references = manifest.references)
    (alike : List.Forall₂ Resource.Alike (manifest.resources.take (i + 1))
      (other.resources.take (i + 1))) (upTo : j ≤ i) : other.DefectAt j cause := by
  obtain ⟨resource, found, defect⟩ := there
  have inside : j < i + 1 := Nat.lt_succ_of_le upTo
  rw [← List.getElem?_take_of_lt inside] at found
  obtain ⟨another, there, same⟩ := Outcome.exists_at alike found
  rw [List.getElem?_take_of_lt inside] at there
  have before := map_symbol_of_alike (List.forall₂_take j alike)
  rw [List.take_take, List.take_take, Nat.min_eq_left (Nat.le_of_lt inside)] at before
  refine ⟨another, there, ?_⟩
  rw [before, references]
  exact defect.of_alike same

theorem not_defectAt_missingPalette (i : Nat) : ¬ manifest.DefectAt i .missingPalette := by
  rintro ⟨resource, -, defect⟩
  cases defect with
  | input _ _ lacks => cases lacks

/-- Validation accepts the sound manifests and no others, and of the others it names the first
defect, which nothing after it and no field without a use has a part in. -/
theorem validate_names_first_defect (manifest : Manifest) :
    ((∃ validated, manifest.validate = .ok validated) ↔ manifest.Sound) ∧
    (∀ validated, manifest.validate = .ok validated → manifest.Validates validated) ∧
    (∀ cause, manifest.validate = .error cause ↔ manifest.FirstDefect cause) ∧
    ∀ (other : Manifest) (i : Nat) (cause : Error), manifest.validate = .error cause →
      manifest.DefectAt i cause → other.HasPalette → other.references = manifest.references →
      List.Forall₂ Resource.Alike (manifest.resources.take (i + 1))
        (other.resources.take (i + 1)) → other.validate = .error cause := by
  refine ⟨exists_validate_iff, fun validated valid => (validate_eq_ok_iff.mp valid).2.2.2,
    fun cause => validate_eq_error_iff, ?_⟩
  intro other i cause failed there palette references alike
  have back := (alike.flip).imp fun _ _ same => Resource.Alike.symm same
  apply validate_eq_error_iff.mpr
  cases validate_eq_error_iff.mp failed with
  | palette => exact absurd there (not_defectAt_missingPalette i)
  | @resource first _ _ here none =>
      have upTo : first ≤ i := by
        apply Nat.le_of_not_lt
        intro before
        exact none i before cause there
      refine .resource palette (here.of_alike references alike upTo) ?_
      intro j before another earlier
      have same : j ≤ i := Nat.le_trans (Nat.le_of_lt before) upTo
      exact none j before another (earlier.of_alike references.symm back same)

/-- The second resource has the name of the first and an input of no known kind, and the third
has no name. -/
def repeatedName : Manifest where
  references := .empty
  palette := some " pebble2 "
  resources :=
    [⟨"A", ⟨"file", some "a", none, none, none, none⟩⟩,
      ⟨"\tA", ⟨"font", none, none, none, none, none⟩⟩,
      ⟨" ", ⟨"file", none, none, none, none, none⟩⟩]

/-- As far as the second resource only fields without a use are different. -/
def repeatedNameAnnotated : Manifest where
  references := .empty
  palette := some "gold"
  resources :=
    [⟨"A ", ⟨"file", some "a", some "system", none, none, some 9⟩⟩,
      ⟨"A", ⟨"font", some "b", none, some 1, none, none⟩⟩]

/-- A resource of a declared pack. -/
def oneExtract : Manifest where
  references := ⟨[("system", "ref/system.pbpack")], .cons nofun .nil⟩
  palette := some "pebble64"
  resources := [⟨" FONT", ⟨"resource", some "unused", some "system", some 3, none, none⟩⟩]

theorem repeated_name_is_first_defect :
    repeatedName.validate = .error (.duplicateName "A") ∧
      repeatedNameAnnotated.validate = .error (.duplicateName "A") ∧
      ∃ validated, oneExtract.validate = .ok validated ∧ oneExtract.Validates validated := by
  obtain ⟨-, -, -, after⟩ := validate_names_first_defect repeatedName
  have failed : repeatedName.validate = .error (.duplicateName "A") := by decide
  have there : repeatedName.DefectAt 1 (.duplicateName "A") :=
    ⟨_, rfl, .repeated (by decide) (by decide)⟩
  have alike : List.Forall₂ Resource.Alike (repeatedName.resources.take 2)
      (repeatedNameAnnotated.resources.take 2) := by
    refine .cons ⟨by decide, ?_⟩ (.cons ⟨by decide, ?_⟩ .nil)
    · exact ⟨rfl, fun _ => rfl, nofun, nofun⟩
    · exact ⟨rfl, nofun, nofun, nofun⟩
  obtain ⟨accepted, described, -, -⟩ := validate_names_first_defect oneExtract
  obtain ⟨validated, valid⟩ := accepted.mpr
    ⟨⟨"pebble64", rfl, by decide⟩, by decide, by decide, by
      rintro _ (_ | ⟨_, ⟨⟩⟩)
      exact .inr ⟨rfl, rfl, _, _, rfl, List.mem_singleton.mpr rfl⟩⟩
  exact ⟨failed, after _ 1 _ failed there ⟨"gold", rfl, by decide⟩ rfl alike, validated, valid,
    described validated valid⟩

end Manifest

end ResourcePack
