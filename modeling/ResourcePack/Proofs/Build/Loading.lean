import ResourcePack.Build.Collection
import ResourcePack.Proofs.Manifest.FirstDefect
import ResourcePack.Proofs.Text.Splitting

/-!
# What loading a collection gives

A manifest that loads was read, validated and turned into entries, one for each resource
and in the same order. Validation takes the blanks off the names of resources, and leaves
none of them empty.
-/

namespace ResourcePack

namespace Manifest

/-- A name that has been validated is not empty, and no blank stands at its ends. -/
structure IsName (name : String) : Prop where
  nonempty : name ≠ ""
  tight : Text.Tight Text.isBlank name.toList

theorem isName_trim {name : String} (nonempty : Text.trim name ≠ "") :
    IsName (Text.trim name) where
  nonempty := nonempty
  tight := by
    rw [Text.trim, String.toList_ofList]
    exact Text.tight_stripped _

theorem isName_of_validate {manifest : Manifest} {validated : Validated}
    (valid : manifest.validate = .ok validated) : ∀ d ∈ validated.resources, IsName d.name := by
  obtain ⟨-, named, -, validates⟩ := validate_eq_ok_iff.mp valid
  intro d mem
  obtain ⟨resource, listed, declares⟩ := Outcome.exists_item validates.resources d mem
  rw [declares.name]
  exact isName_trim (named resource listed)

end Manifest

namespace Collection

/-- Every declared resource becomes an entry of the same name. -/
theorem entriesFrom_eq_ok {root : Path} {family : Family} {position : Nat}
    {declared : List Manifest.Declared} {entries : List Entry}
    (made : entriesFrom root family position declared = .ok entries) :
    List.Forall₂ (fun d entry => entry.name = d.name ∧
      Source.ofDescriptor root family d.descriptor = .ok entry.source) declared entries := by
  induction declared generalizing position entries with
  | nil =>
      cases made
      exact .nil
  | cons d rest ih =>
      obtain ⟨source, named, made⟩ := Outcome.bind_eq_ok.mp made
      obtain ⟨others, later, made⟩ := Outcome.bind_eq_ok.mp made
      cases made
      rw [naming, Outcome.mapError_eq_ok, Outcome.mapError_eq_ok] at named
      exact .cons ⟨rfl, named⟩ (ih later)

/-- A collection that loads comes from a manifest that was read and found valid. -/
theorem ofOutcome_eq_ok {manifestPath root : Path} {outcome : Except FileError Bytes}
    {collection : Collection} (loaded : ofOutcome manifestPath root outcome = .ok collection) :
    ∃ manifest validated,
      manifestOf manifestPath outcome = .ok manifest ∧ manifest.validate = .ok validated ∧
        Family.parse validated.palette = .ok collection.family ∧
        entriesFrom root collection.family 0 validated.resources = .ok collection.entries := by
  obtain ⟨manifest, read, made⟩ := Outcome.bind_eq_ok.mp loaded
  obtain ⟨validated, valid, made⟩ := Outcome.bind_eq_ok.mp made
  obtain ⟨family, known, made⟩ := Outcome.bind_eq_ok.mp made
  obtain ⟨entries, listed, made⟩ := Outcome.bind_eq_ok.mp made
  cases made
  rw [Outcome.mapError_eq_ok] at read valid known
  exact ⟨manifest, validated, read, valid, known, listed⟩

theorem isName_of_ofOutcome {manifestPath root : Path} {outcome : Except FileError Bytes}
    {collection : Collection} (loaded : ofOutcome manifestPath root outcome = .ok collection) :
    ∀ entry ∈ collection.entries, Manifest.IsName entry.name := by
  obtain ⟨manifest, validated, -, valid, -, made⟩ := ofOutcome_eq_ok loaded
  have named := Manifest.isName_of_validate valid
  intro entry mem
  obtain ⟨d, declared, same, -⟩ := Outcome.exists_item (entriesFrom_eq_ok made) entry mem
  rw [same]
  exact named d declared

end Collection

end ResourcePack
