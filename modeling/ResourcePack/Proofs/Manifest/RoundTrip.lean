import ResourcePack.Manifest.Parser
import ResourcePack.Proofs.Document.Fields
import ResourcePack.Proofs.Document.Json.Printing
import ResourcePack.Proofs.Outcome

/-!
# Manifests that are written down

A manifest is found again in the document it is written as, whichever of its fields are set,
and so it is read back from every text that spells this document, among them those that are
written.
-/

namespace ResourcePack

/-! ## References -/

namespace References

theorem place_of_last {name path : String} {entries : List (String × String)}
    (before : ∀ e ∈ entries, e.1 < name) : place name path entries = entries ++ [(name, path)] := by
  induction entries with
  | nil => rfl
  | cons entry entries ih =>
      obtain ⟨n, p⟩ := entry
      have first : n < name := before (n, p) (by simp)
      rw [place, if_neg (String.lt_asymm first), if_pos first,
        ih fun e mem => before e (by simp [mem]), List.cons_append]

theorem entries_foldl_insert {entries : List (String × String)} {references : References}
    (sorted : (references.entries ++ entries).Pairwise fun a b => a.1 < b.1) :
    (entries.foldl (fun references (name, path) => references.insert name path)
      references).entries = references.entries ++ entries := by
  induction entries generalizing references with
  | nil => simp
  | cons entry entries ih =>
      obtain ⟨name, path⟩ := entry
      have last : (references.insert name path).entries = references.entries ++ [(name, path)] :=
        place_of_last fun e mem => (List.pairwise_append.mp sorted).2.2 e mem _ List.mem_cons_self
      rw [List.foldl_cons, ih (by rwa [last, List.append_assoc]), last, List.append_assoc,
        List.singleton_append]

/-- References are what their names and paths, in order, declare. -/
theorem ofList_entries (references : References) : ofList references.entries = references := by
  have same : (ofList references.entries).entries = empty.entries ++ references.entries :=
    entries_foldl_insert references.sorted
  obtain ⟨entries, sorted⟩ := references
  rw [References.mk.injEq]
  exact same

end References

namespace Manifest

open Document

/-! ## Fields -/

theorem optional?_map {α : Type} {read : Document → Option α} {write : α → Document}
    (reads : ∀ value, read (write value) = some value) (notNull : ∀ value, write value ≠ .null)
    (field : Option α) : optional? read (field.map write) = some field := by
  cases field with
  | none => rfl
  | some value =>
      rw [Option.map_some, optional?, reads, Option.map_some]
      exact fun same => notNull value same

theorem optional?_str (field : Option String) :
    optional? text? (field.map .str) = some field := by
  have reads : ∀ value, text? (.str value) = some value := fun _ => rfl
  exact optional?_map reads nofun field

theorem int32?_toInt (n : Int32) : int32? (.integer n.toInt) = some n := by
  have low := n.le_toInt
  have high := n.toInt_lt
  rw [int32?, if_pos (by omega), Int32.ofInt_toInt]

theorem byte?_toNat (n : UInt8) : byte? (.nat n.toNat) = some n := by
  have high := n.toNat_lt
  rw [byte?, if_pos (by omega), Int.toNat_natCast, UInt8.ofNat_toNat]

theorem references?_entries (references : References) :
    references? (.object (references.entries.map fun entry => (entry.1, .str entry.2))) =
      some references := by
  have each : (references.entries.map fun entry =>
      (some entry.1, Document.str entry.2)).mapM (fun member => do
        return (← member.1, ← text? member.2)) = some references.entries := by
    rw [Outcome.mapM_eq_some_iff, List.forall₂_map_left_iff, List.forall₂_same]
    intro entry mem
    rfl
  rw [object_eq, List.map_map, references?]
  simp only [Function.comp_def, each]
  exact congrArg some references.ofList_entries

namespace Input

/-- The fields of an input as they are written. -/
def written (input : Input) : List (String × Option Document) :=
  [("type", some (.str input.kind)), ("file", input.file.map .str),
    ("ref", input.reference.map .str), ("id", input.id.map (.integer ·.toInt)),
    ("method", input.method.map .str), ("bitdepth", input.depth.map (.nat ·.toNat))]

theorem toDocument_eq (input : Input) : input.toDocument = .object (present input.written) := by
  simp [toDocument, written, present, Function.comp_def]

theorem ofDocument?_toDocument (surplus : Surplus) (input : Input) :
    ofDocument? surplus input.toDocument = some input := by
  have found := fields?_object_present input.written (by simp [written]) surplus
  have names : input.written.map Prod.fst = fields := rfl
  rw [← toDocument_eq, names] at found
  have id : optional? int32? (input.id.map (.integer ·.toInt)) = some input.id :=
    optional?_map int32?_toInt nofun input.id
  have depth : optional? byte? (input.depth.map (.nat ·.toNat)) = some input.depth :=
    optional?_map byte?_toNat nofun input.depth
  simp only [ofDocument?, found, written, List.map_cons, List.map_nil, Option.bind_eq_bind,
    Option.bind_some, optional?_str, id, depth]
  rfl

end Input

namespace Resource

/-- The fields of a resource as they are written. -/
def written (resource : Resource) : List (String × Option Document) :=
  [("name", some (.str resource.name)), ("input", some resource.input.toDocument)]

theorem toDocument_eq (resource : Resource) :
    resource.toDocument = .object (present resource.written) := rfl

theorem ofDocument?_toDocument (surplus : Surplus) (resource : Resource) :
    ofDocument? surplus resource.toDocument = some resource := by
  have found := fields?_object_present resource.written (by simp [written]) surplus
  have names : resource.written.map Prod.fst = fields := rfl
  rw [← toDocument_eq, names] at found
  simp only [ofDocument?, found, written, List.map_cons, List.map_nil, Option.bind_eq_bind,
    Option.bind_some, required?, Input.ofDocument?_toDocument]
  rfl

end Resource

/-- The fields of a manifest as they are written. -/
def written (manifest : Manifest) : List (String × Option Document) :=
  [("references", some (.object (manifest.references.entries.map fun entry =>
      (entry.1, .str entry.2)))),
    ("palette", manifest.palette.map .str),
    ("resources", some (.list (manifest.resources.map Resource.toDocument)))]

theorem toDocument_eq (manifest : Manifest) :
    manifest.toDocument = .object (present manifest.written) := by
  simp [toDocument, written, present, Function.comp_def]

theorem ofDocument?_toDocument (surplus : Surplus) (manifest : Manifest) :
    ofDocument? surplus manifest.toDocument = some manifest := by
  have found := fields?_object_present manifest.written (by simp [written]) surplus
  have names : manifest.written.map Prod.fst = fields := rfl
  rw [← toDocument_eq, names] at found
  have resources : list? (Resource.ofDocument? surplus)
      (.list (manifest.resources.map Resource.toDocument)) = some manifest.resources := by
    rw [list?, Outcome.mapM_eq_some_iff, List.forall₂_map_left_iff, List.forall₂_same]
    exact fun resource _ => resource.ofDocument?_toDocument surplus
  simp only [ofDocument?, found, written, List.map_cons, List.map_nil, Option.bind_eq_bind,
    Option.bind_some, required?, optional?_str, resources, Option.mapM_some,
    references?_entries]
  rfl

/-! ## Texts -/

/-- What is read from a text is the manifest in the document that the text spells. -/
theorem parseJson_eq_ok_iff {text : String} {document : Document} {manifest : Manifest}
    (spelled : Json.Spelled document text) :
    parseJson text = .ok manifest ↔ ofDocument? .refused document = some manifest := by
  rw [parseJson, Json.parse?_eq_some_iff.mpr spelled, Option.bind_some]
  split <;> simp [*]

theorem plain_object_present {fields : List (String × Option Document)}
    (plain : ∀ field ∈ fields, ∀ document ∈ field.2, document.Plain) :
    (object (present fields)).Plain :=
  plain_object_iff.mpr fun (_, document) mem => plain _ (mem_present.mp mem) document rfl

theorem plain_map {α : Type} {write : α → Document} (plain : ∀ value, (write value).Plain)
    (field : Option α) : ∀ document ∈ field.map write, document.Plain := by
  rintro _ mem
  obtain ⟨value, -, rfl⟩ := Option.map_eq_some_iff.mp mem
  exact plain value

theorem Input.plain_toDocument (input : Input) : input.toDocument.Plain := by
  rw [toDocument_eq]
  refine plain_object_present ?_
  simp only [written, List.forall_mem_cons]
  refine ⟨?_, plain_map (fun _ => .text _) _, plain_map (fun _ => .text _) _,
    plain_map (fun _ => .integer _) _, plain_map (fun _ => .text _) _,
    plain_map (fun _ => .integer _) _, by simp⟩
  rintro _ ⟨⟩
  exact .text _

theorem Resource.plain_toDocument (resource : Resource) : resource.toDocument.Plain := by
  refine plain_object_iff.mpr ?_
  simp only [List.forall_mem_cons]
  exact ⟨.text _, resource.input.plain_toDocument, by simp⟩

theorem plain_toDocument (manifest : Manifest) : manifest.toDocument.Plain := by
  rw [toDocument_eq]
  refine plain_object_present ?_
  simp only [written, List.forall_mem_cons]
  refine ⟨?_, plain_map (fun _ => .text _) _, ?_, by simp⟩
  · rintro _ ⟨⟩
    refine plain_object_iff.mpr fun member mem => ?_
    obtain ⟨_, -, rfl⟩ := List.mem_map.mp mem
    exact .text _
  · rintro _ ⟨⟩
    refine .list fun document mem => ?_
    obtain ⟨resource, -, rfl⟩ := List.mem_map.mp mem
    exact resource.plain_toDocument

/-- A manifest is read back from every text that spells the document it is written as, and
so from what is written on one line or on several. -/
theorem written_reads_back (manifest : Manifest) :
    (∀ text, Json.Spelled manifest.toDocument text → parseJson text = .ok manifest) ∧
      parseJson manifest.toDocument.compact = .ok manifest ∧
      parseJson manifest.toDocument.pretty = .ok manifest := by
  have reads : ∀ text, Json.Spelled manifest.toDocument text → parseJson text = .ok manifest :=
    fun _ spelled => (parseJson_eq_ok_iff spelled).mpr (manifest.ofDocument?_toDocument _)
  have plain := manifest.plain_toDocument
  exact ⟨reads, reads _ plain.spelled_compact, reads _ plain.spelled_pretty⟩

end Manifest

end ResourcePack
