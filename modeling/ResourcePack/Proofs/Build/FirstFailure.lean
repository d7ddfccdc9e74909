import ResourcePack.Proofs.Build.Loading
import ResourcePack.Proofs.Build.Plan
import ResourcePack.Proofs.Build.Settings

/-!
# Which entry a failure names

Loading looks for defects in three rounds: the manifest as such, its palette, and the
settings of its pictures. Resolving is one round more, through the sources. Each round
comes only after the one before it has found nothing, and it stops at the first defect.
So of all that is wrong with a manifest and its files one thing is reported, and where it
concerns a resource, that is named by its own position and name.
-/

namespace ResourcePack

open Build (Error)

namespace Manifest

/-- Why a manifest has no collection: it is not sound, or else there is no such palette, or
else a setting of a picture is none that there is, and then it is about the first such picture. -/
inductive LoadDefect (manifest : Manifest) : Build.Error → Prop
  | unsound {cause : Error} (invalid : manifest.validate = .error cause) :
      LoadDefect manifest (.manifest cause)
  | palette {validated : Validated} (valid : manifest.validate = .ok validated)
      (unknown : validated.palette ∉ ["pebble64", "pebble2"]) :
      LoadDefect manifest (.picture (.unknownFamily validated.palette))
  | setting {validated : Validated} {i : Nat} {declared : Declared} {cause : Picture.Error}
      (valid : manifest.validate = .ok validated)
      (known : validated.palette ∈ ["pebble64", "pebble2"])
      (first : Outcome.First (fun declared => declared.descriptor.Misfit) validated.resources i
        declared cause) :
      LoadDefect manifest (.resource (i + 1) declared.name (.picture cause))

/-- The collection of a validated manifest: an entry for each resource, in order. -/
structure Validated.Collects (validated : Validated) (path root : Path)
    (collection : Collection) : Prop where
  manifestPath : collection.manifestPath = path
  palette : collection.family.name = validated.palette
  entries : List.Forall₂ (fun declared entry => entry.name = declared.name ∧
    declared.descriptor.Means root collection.family entry.source) validated.resources
      collection.entries

end Manifest

namespace Collection

variable {manifest : Manifest} {path root : Path} {family : Family}

/-- A failure to make a source out of what is declared is one of the resource. -/
theorem entriesFrom_eq_treat (position : Nat) (declared : List Manifest.Declared) :
    entriesFrom root family position declared =
      Outcome.treat (fun d => Source.ofDescriptor root family d.descriptor)
        (fun position d cause => .resource (position + 1) d.name (.picture cause))
        (fun _ d source => { name := d.name, source }) position declared := by
  induction declared generalizing position with
  | nil => rfl
  | cons d rest ih =>
      rw [entriesFrom, Outcome.treat, ih]
      cases Source.ofDescriptor root family d.descriptor <;> rfl

theorem entriesFrom_eq_error_iff {declared : List Manifest.Declared} {cause : Error} :
    entriesFrom root family 0 declared = .error cause ↔ ∃ i d inner,
      Outcome.First (fun d => d.descriptor.Misfit) declared i d inner ∧
        cause = .resource (i + 1) d.name (.picture inner) := by
  rw [entriesFrom_eq_treat, Outcome.treat_eq_error_iff]
  simp only [Outcome.First.congr fun d inner => Source.ofDescriptor_eq_error_iff, Nat.zero_add]

theorem ofManifest_eq_error_iff {cause : Error} :
    ofManifest manifest path root = .error cause ↔ manifest.LoadDefect cause := by
  constructor
  · intro failed
    obtain unsound | ⟨validated, valid, failed⟩ := Outcome.bind_eq_error.mp failed
    · obtain ⟨inner, invalid, rfl⟩ := Outcome.mapError_eq_error.mp unsound
      exact .unsound invalid
    · rw [Outcome.mapError_eq_ok] at valid
      obtain unparsed | ⟨family, parsed, failed⟩ := Outcome.bind_eq_error.mp failed
      · obtain ⟨inner, refused, rfl⟩ := Outcome.mapError_eq_error.mp unparsed
        obtain ⟨unknown, rfl⟩ := Family.parse_eq_error_iff.mp refused
        exact .palette valid unknown
      · rw [Outcome.mapError_eq_ok] at parsed
        obtain unlisted | ⟨entries, -, last⟩ := Outcome.bind_eq_error.mp failed
        · obtain ⟨i, d, inner, first, rfl⟩ := entriesFrom_eq_error_iff.mp unlisted
          exact .setting valid (Family.exists_parse_iff.mp ⟨family, parsed⟩) first
        · cases last
  · rintro (invalid | ⟨valid, unknown⟩ | ⟨valid, known, first⟩)
    · exact Outcome.bind_eq_error.mpr (.inl (Outcome.mapError_eq_error.mpr ⟨_, invalid, rfl⟩))
    · refine Outcome.bind_eq_error.mpr (.inr ⟨_, Outcome.mapError_eq_ok.mpr valid, ?_⟩)
      exact Outcome.bind_eq_error.mpr (.inl (Outcome.mapError_eq_error.mpr
        ⟨_, Family.parse_eq_error_iff.mpr ⟨unknown, rfl⟩, rfl⟩))
    · obtain ⟨family, parsed⟩ := Family.exists_parse_iff.mpr known
      refine Outcome.bind_eq_error.mpr (.inr ⟨_, Outcome.mapError_eq_ok.mpr valid, ?_⟩)
      refine Outcome.bind_eq_error.mpr (.inr ⟨_, Outcome.mapError_eq_ok.mpr parsed, ?_⟩)
      exact Outcome.bind_eq_error.mpr (.inl (entriesFrom_eq_error_iff.mpr ⟨_, _, _, first, rfl⟩))

theorem ofOutcome_eq_error_iff {manifest root : Path}
    {outcome : Except FileError Bytes} {cause : Build.Error} :
    ofOutcome manifest root outcome = .error cause ↔
      (∃ inner, manifestOf manifest outcome = .error inner ∧ cause = .manifest inner) ∨
      ∃ written, manifestOf manifest outcome = .ok written ∧ written.LoadDefect cause := by
  unfold ofOutcome
  rw [Outcome.bind_eq_error, Outcome.mapError_eq_error]
  simp only [Outcome.mapError_eq_ok, ofManifest_eq_error_iff]
  refine or_congr_left ⟨?_, ?_⟩
  · rintro ⟨inner, refused, rfl⟩
    exact ⟨inner, refused, rfl⟩
  · rintro ⟨inner, refused, rfl⟩
    exact ⟨inner, refused, rfl⟩

theorem collects_of_ofManifest {collection : Collection}
    (made : ofManifest manifest path root = .ok collection) :
    ∃ validated, manifest.validate = .ok validated ∧ validated.Collects path root collection := by
  obtain ⟨validated, valid, made⟩ := Outcome.bind_eq_ok.mp made
  obtain ⟨family, known, made⟩ := Outcome.bind_eq_ok.mp made
  obtain ⟨entries, listed, made⟩ := Outcome.bind_eq_ok.mp made
  cases made
  rw [Outcome.mapError_eq_ok] at valid known
  refine ⟨validated, valid, rfl, Family.parse_eq_ok_iff.mp known, ?_⟩
  refine (entriesFrom_eq_ok listed).imp ?_
  rintro d entry ⟨named, made⟩
  exact ⟨named, Source.means_of_ofDescriptor made⟩

section Observed

variable {S : Type} [Files (StateM S)] {look : S → Path → Except FileError Bytes}

/-- A manifest that is read is all that its collection is loaded from. -/
theorem runOn_load_of_manifestOf (observes : Files.Observes look) {state : S}
    (read : manifestOf path (look state path) = .ok manifest) :
    Files.runOn state (load path root) = (ofManifest manifest path root, state) := by
  rw [Build.runOn_load observes, ofOutcome, read]
  rfl

end Observed

/-- Errors point at the right entry. What loading a manifest that was read gives is settled by
the first of its defects in the order of the rounds, and by no other file. Resolving succeeds
exactly if every source does, and fails as the first source that does not. -/
theorem failures_name_first_entry (codec : Codec) :
    (∀ (manifest : Manifest) (path root : Path),
      (∀ cause, ofManifest manifest path root = .error cause ↔ manifest.LoadDefect cause) ∧
      ((∃ collection, ofManifest manifest path root = .ok collection) ↔
        ∀ cause, ¬ manifest.LoadDefect cause) ∧
      ∀ collection, ofManifest manifest path root = .ok collection →
        ∃ validated, manifest.validate = .ok validated ∧
          validated.Collects path root collection) ∧
    ∀ {S : Type} [Files (StateM S)] {look : S → Path → Except FileError Bytes},
      Files.Observes look →
      (∀ (manifest : Manifest) (path root : Path) (state : S),
        manifestOf path (look state path) = .ok manifest →
        Files.runOn state (load path root) = (ofManifest manifest path root, state)) ∧
      ∀ (collection : Collection) (state : S), ∃ outcome,
        Files.runOn state (collection.resolve codec) = (outcome, state) ∧
        ((∃ resources, outcome = .ok resources) ↔ ∀ entry ∈ collection.entries, ∃ blob,
          (Files.runOn state (entry.source.bytes codec)).1 = .ok blob) ∧
        ∀ cause, outcome = .error cause ↔ ∃ k entry inner,
          Outcome.First (fun entry inner =>
            (Files.runOn state (entry.source.bytes codec)).1 = .error inner)
              collection.entries k entry inner ∧
            cause = .resource (k + 1) entry.name inner := by
  constructor
  · intro manifest path root
    refine ⟨fun cause => ofManifest_eq_error_iff, ?_, fun collection => collects_of_ofManifest⟩
    simp only [Outcome.exists_ok_iff, ne_eq, ofManifest_eq_error_iff]
  · intro S _ look observes
    refine ⟨fun manifest path root state => runOn_load_of_manifestOf observes, ?_⟩
    intro collection state
    simp only [runOn_bytes observes]
    refine ⟨_, runOn_resolveFrom observes codec 0 collection.entries state,
      Outcome.exists_treat_iff, ?_⟩
    intro cause
    simp only [Outcome.treat_eq_error_iff, Nat.zero_add]

/-- The second picture is to be reduced in a way that there is not, to a depth that there is
not; the third has such a depth as well. No other file is there. -/
def unfitPictures : FileSystem where
  nodes := [
    (["m"], .file (Utf8.encode ("\x7b\"palette\":\"pebble2\",\"resources\":[" ++
      "\x7b\"name\":\"A\",\"input\":\x7b\"type\":\"image\",\"file\":\"a\"\x7d\x7d," ++
      "\x7b\"name\":\"B\",\"input\":\x7b\"type\":\"image\",\"file\":\"b\"," ++
        "\"method\":\"best\",\"bitdepth\":3\x7d\x7d," ++
      "\x7b\"name\":\"C\",\"input\":\x7b\"type\":\"image\",\"file\":\"c\"," ++
        "\"bitdepth\":0\x7d\x7d]\x7d")))]
  current := []

/-- What is written in that manifest. -/
def unfitManifest : Manifest where
  references := .empty
  palette := some "pebble2"
  resources :=
    [⟨"A", ⟨"image", some "a", none, none, none, none⟩⟩,
      ⟨"B", ⟨"image", some "b", none, none, some "best", some 3⟩⟩,
      ⟨"C", ⟨"image", some "c", none, none, none, some 0⟩⟩]

/-- The manifest itself, and then two files that are not there. -/
def missingFiles : Collection :=
  ⟨⟨"m"⟩, .pebble2, [⟨"M", .file ⟨"m"⟩⟩, ⟨"A", .file ⟨"a"⟩⟩, ⟨"B", .file ⟨"b"⟩⟩]⟩

theorem second_entry_is_named :
    Files.runOn unfitPictures (load ⟨"m"⟩ ⟨""⟩) =
        (.error (.resource 2 "B" (.picture (.unknownMethod "best"))), unfitPictures) ∧
      Files.runOn unfitPictures (missingFiles.resolve .png) =
        (.error (.resource 2 "A" (.read ⟨"a"⟩ .notFound)), unfitPictures) := by
  obtain ⟨manifests, runs⟩ := failures_name_first_entry .png
  obtain ⟨loads, resolves⟩ := runs FileSystem.observes
  constructor
  · have there : unfitPictures.read ⟨"m"⟩ = .ok (Utf8.encode _) := rfl
    have read : manifestOf ⟨"m"⟩ (unfitPictures.read ⟨"m"⟩) = .ok unfitManifest := by
      rw [there, manifestOf_encode]
      decide +kernel
    have defect :
        unfitManifest.LoadDefect (.resource 2 "B" (.picture (.unknownMethod "best"))) := by
      obtain ⟨validated, valid, known, listed⟩ : ∃ validated,
          unfitManifest.validate = .ok validated ∧
            validated.palette ∈ ["pebble64", "pebble2"] ∧
            validated.resources = [⟨"A", .image "a" none none⟩,
              ⟨"B", .image "b" (some "best") (some 3)⟩, ⟨"C", .image "c" none (some 0)⟩] :=
        ⟨_, rfl, by decide, rfl⟩
      have second : validated.resources[1]? = some ⟨"B", .image "b" (some "best") (some 3)⟩ := by
        rw [listed]
        rfl
      refine .setting valid known ⟨second, .method (by decide), ?_⟩
      rw [listed]
      intro earlier first other misfit
      obtain rfl := List.mem_singleton.mp first
      cases misfit
    rw [loads unfitManifest _ _ _ read, ((manifests _ _ _).1 _).mpr defect]
  · obtain ⟨outcome, resolved, -, fails⟩ := resolves missingFiles unfitPictures
    rw [resolved, (fails _).mpr ⟨1, ⟨"A", .file ⟨"a"⟩⟩, .read ⟨"a"⟩ .notFound, ?_, rfl⟩]
    refine ⟨rfl, by decide, ?_⟩
    intro earlier first other failed
    obtain rfl := List.mem_singleton.mp first
    have there : (Files.runOn unfitPictures ((Source.file ⟨"m"⟩).bytes .png)).1.isOk = true := by
      decide
    rw [failed] at there
    cases there

end Collection

end ResourcePack
