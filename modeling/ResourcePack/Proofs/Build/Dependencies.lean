import Mathlib.Data.List.Induction
import ResourcePack.Proofs.Build.MakeRules
import ResourcePack.Proofs.Build.Outputs
import ResourcePack.Proofs.Files.Spelling

/-!
# What a build depends on

Resolving a collection reads the files of its sources and nothing else. Its dependencies
leave out spellings of a path that comes earlier, so that they tell of every file that is
read, though not of every spelling. Two runs that find the same at each of these files
have the same outcome, and the rules for make leave out nothing that the pack or the header
could change with.
-/

namespace ResourcePack

namespace Collection

/-- One more path, at the end of the list. -/
theorem distinct_concat (paths : List Path) (path : Path) :
    distinct (paths ++ [path]) =
      if (distinct paths).any (path.Same ·) then distinct paths else distinct paths ++ [path] := by
  rw [distinct, List.foldl_append]
  rfl

/-- Of several spellings the first one is kept. -/
theorem exists_mem_distinct {paths : List Path} {path : Path} (member : path ∈ paths) :
    ∃ kept ∈ distinct paths, kept.Same path := by
  induction paths using List.reverseRecOn with
  | nil => cases member
  | append_singleton paths last ih =>
      rw [distinct_concat]
      rw [List.mem_append, List.mem_singleton] at member
      split
      · rename_i seen
        obtain earlier | rfl := member
        · exact ih earlier
        · obtain ⟨kept, there, same⟩ := List.any_eq_true.mp seen
          exact ⟨kept, there, (of_decide_eq_true same).symm⟩
      · obtain earlier | rfl := member
        · obtain ⟨kept, there, same⟩ := ih earlier
          exact ⟨kept, List.mem_append_left _ there, same⟩
        · exact ⟨path, List.mem_append_right _ (List.mem_singleton_self _), .refl path⟩

theorem mem_of_mem_distinct {paths : List Path} {path : Path} (kept : path ∈ distinct paths) :
    path ∈ paths := by
  induction paths using List.reverseRecOn with
  | nil => cases kept
  | append_singleton paths last ih =>
      rw [distinct_concat] at kept
      split at kept
      · exact List.mem_append_left _ (ih kept)
      · obtain earlier | new := List.mem_append.mp kept
        · exact List.mem_append_left _ (ih earlier)
        · exact List.mem_append_right _ new

variable {collection : Collection}

/-- What a source reads is among the dependencies, perhaps in another spelling. -/
theorem exists_mem_dependencies {entry : Entry} (member : entry ∈ collection.entries) :
    ∃ path ∈ collection.dependencies, path.Same entry.source.path :=
  exists_mem_distinct (List.mem_flatMap.mpr ⟨entry, member, List.mem_singleton_self _⟩)

/-- Every dependency is spelled as a source spells it. -/
theorem exists_entry_of_mem_dependencies {path : Path} (listed : path ∈ collection.dependencies) :
    ∃ entry ∈ collection.entries, entry.source.path = path := by
  obtain ⟨entry, member, read⟩ := List.mem_flatMap.mp (mem_of_mem_distinct listed)
  exact ⟨entry, member, (List.mem_singleton.mp read).symm⟩

section Observed

variable {S : Type} [Files (StateM S)] {look : S → Path → Except FileError Bytes}

/-- An entry goes by what is to be seen at the path of its source. -/
theorem runOn_resolveEntry (observes : Files.Observes look) (codec : Codec) (position : Nat)
    (entry : Entry) (state : S) :
    Files.runOn state (resolveEntry codec position entry) =
      (naming position entry.name
        ((entry.source.ofOutcome codec (look state entry.source.path)).map
          (resolved position entry)), state) := by
  change (naming position entry.name ((entry.source.ofOutcome codec
    ((Files.read entry.source.path : StateM S _) state).1).map (resolved position entry)),
      ((Files.read entry.source.path : StateM S _) state).2) = _
  rw [observes.read]

theorem runOn_bytes (observes : Files.Observes look) (codec : Codec) (source : Source)
    (state : S) :
    Files.runOn state (source.bytes codec) =
      (source.ofOutcome codec (look state source.path), state) := by
  change (source.ofOutcome codec ((Files.read source.path : StateM S _) state).1,
    ((Files.read source.path : StateM S _) state).2) = _
  rw [observes.read]

/-- Entries are resolved in turn, and a failure of a source is one of the resource. -/
theorem runOn_resolveFrom (observes : Files.Observes look) (codec : Codec) (position : Nat)
    (entries : List Entry) (state : S) :
    Files.runOn state (resolveFrom codec position entries) =
      (Outcome.treat (fun entry => entry.source.ofOutcome codec (look state entry.source.path))
        (fun position entry => .resource (position + 1) entry.name) resolved position entries,
      state) := by
  induction entries generalizing position with
  | nil => rfl
  | cons entry rest ih =>
      rw [resolveFrom, Files.runOn_bind, runOn_resolveEntry observes, Outcome.treat, naming]
      cases entry.source.ofOutcome codec (look state entry.source.path) with
      | error cause => rfl
      | ok blob =>
          simp only [Except.map, Except.mapError, Files.runOn_bind, ih]
          cases Outcome.treat _ _ _ (position + 1) rest <;> rfl

/-- States that look the same to every source have the same outcome. -/
theorem runOn_resolveFrom_congr (observes : Files.Observes look) (codec : Codec)
    (position : Nat) {entries : List Entry} {state state' : S}
    (same : ∀ entry ∈ entries, look state entry.source.path = look state' entry.source.path) :
    ∃ outcome, Files.runOn state (resolveFrom codec position entries) = (outcome, state) ∧
      Files.runOn state' (resolveFrom codec position entries) = (outcome, state') := by
  refine ⟨_, runOn_resolveFrom observes codec position entries state, ?_⟩
  rw [runOn_resolveFrom observes, Outcome.treat_congr]
  intro entry member
  rw [same entry member]

/-- Resolving has the same outcome wherever all spellings of the dependencies look the same. -/
theorem runOn_resolve_congr (observes : Files.Observes look) (codec : Codec)
    (collection : Collection) {state state' : S}
    (same : ∀ path ∈ collection.dependencies, ∀ spelling, path.Same spelling →
      look state spelling = look state' spelling) :
    ∃ outcome, Files.runOn state (collection.resolve codec) = (outcome, state) ∧
      Files.runOn state' (collection.resolve codec) = (outcome, state') := by
  apply runOn_resolveFrom_congr observes codec 0
  intro entry member
  obtain ⟨path, listed, spelled⟩ := exists_mem_dependencies member
  exact same path listed entry.source.path spelled

end Observed

variable {codec : Codec} {fs fs' : FileSystem}

theorem read_of_yields {entries : List Entry} {blobs : List Bytes}
    (yields : Yields codec fs entries blobs) {entry : Entry} (member : entry ∈ entries) :
    ∃ content, fs.read entry.source.path = .ok content := by
  induction yields with
  | nil => cases member
  | cons yielded _ ih =>
      obtain rfl | later := List.mem_cons.mp member
      · rw [run_bytes, Prod.mk.injEq] at yielded
        cases found : fs.read entry.source.path with
        | error cause =>
            rw [found] at yielded
            cases yielded.1
        | ok content => exact ⟨content, rfl⟩
      · exact ih later

/-- On trees a dependency speaks for all spellings that are read without failure. -/
theorem read_eq_of_dependencies {blobs blobs' : List Bytes}
    (yields : Yields codec fs collection.entries blobs)
    (yields' : Yields codec fs' collection.entries blobs')
    (unchanged : ∀ path ∈ collection.dependencies, fs.read path = fs'.read path) :
    ∀ entry ∈ collection.entries, fs.read entry.source.path = fs'.read entry.source.path := by
  intro entry member
  obtain ⟨path, listed, same⟩ := exists_mem_dependencies member
  obtain ⟨other, earlier, rfl⟩ := exists_entry_of_mem_dependencies listed
  obtain ⟨content, there⟩ := read_of_yields yields earlier
  obtain ⟨found, here⟩ := read_of_yields yields member
  obtain ⟨found', here'⟩ := read_of_yields yields' member
  have kept : fs'.read other.source.path = .ok content := by
    rw [← unchanged _ listed, there]
  rw [here, here', ← FileSystem.read_same same there here, ← FileSystem.read_same same kept here']

end Collection

namespace Build

/-- The rules that a build of a collection writes. -/
def rulesOf (manifest basename : Path) (tool : Option Path) (collection : Collection) :
    MakeRules where
  pack := basename.append ".pbpack"
  header := basename.append ".h"
  manifest := manifest
  tool := tool
  dependencies := collection.dependencies

/-- Two builds that succeed with the same dependencies have the same resources. -/
theorem resources_eq {codec : Codec} {collection : Collection} {fs fs' : FileSystem}
    {resources resources' : List Resolved}
    (resolved : fs.run (collection.resolve codec) = (.ok resources, fs))
    (resolved' : fs'.run (collection.resolve codec) = (.ok resources', fs'))
    (unchanged : ∀ path ∈ collection.dependencies, fs.read path = fs'.read path) :
    resources = resources' := by
  obtain ⟨-, yields, -⟩ := Collection.run_resolveFrom_eq_ok resolved
  obtain ⟨-, yields', -⟩ := Collection.run_resolveFrom_eq_ok resolved'
  have same := Collection.read_eq_of_dependencies yields yields' unchanged
  obtain ⟨outcome, ran, ran'⟩ :=
    Collection.runOn_resolveFrom_congr FileSystem.observes codec 0 same
  cases resolved.symm.trans ran
  cases resolved'.symm.trans ran'
  rfl

/-- Two builds that have finished left the same pack and the same header, as far as both
were to write them. -/
structure SameOutputs (basename : Path) (outputs outputs' : Outputs)
    (done done' : FileSystem) : Prop where
  pack : outputs.pack = true → outputs'.pack = true → ∃ content,
    done.read (basename.append ".pbpack") = .ok content ∧
      done'.read (basename.append ".pbpack") = .ok content
  header : outputs.header = true → outputs'.header = true → ∃ content,
    done.read (basename.append ".h") = .ok content ∧
      done'.read (basename.append ".h") = .ok content

theorem Leaves.sameOutputs {codec : Codec} {manifest basename root : Path} {tool : Option Path}
    {outputs outputs' : Outputs} {collection : Collection} {resources resources' : List Resolved}
    {fs fs' done done' : FileSystem}
    (leaves : Leaves codec manifest basename root tool fs outputs collection resources done)
    (leaves' : Leaves codec manifest basename root tool fs' outputs' collection resources' done')
    (unchanged : ∀ path ∈ collection.dependencies, fs.read path = fs'.read path) :
    SameOutputs basename outputs outputs' done done' where
  pack on on' := leaves.pack_alike leaves'
    (resources_eq (leaves.resolved (.inl on)) (leaves'.resolved (.inl on')) unchanged) on on'
  header on on' := leaves.header_alike leaves'
    (resources_eq (leaves.resolved (.inr on)) (leaves'.resolved (.inr on')) unchanged) on on'

/-- The dependencies are complete. On any files whatever, resolving has the same outcome in
two states that look the same at every spelling of the dependencies. So of two builds of
one manifest that both succeed, the packs and the headers are the same unless a dependency
has changed. If all paths are words to make, it reads the dependencies in the rules that are
written, and no change of a pack or a header escapes it. -/
theorem outputs_change_only_with_dependencies (codec : Codec) :
    (∀ {S : Type} [Files (StateM S)] {look : S → Path → Except FileError Bytes},
      Files.Observes look → ∀ (collection : Collection) (state state' : S),
        (∀ path ∈ collection.dependencies, ∀ spelling, path.Same spelling →
          look state spelling = look state' spelling) →
        ∃ outcome, Files.runOn state (collection.resolve codec) = (outcome, state) ∧
          Files.runOn state' (collection.resolve codec) = (outcome, state')) ∧
    ∀ (manifest basename root : Path) (tool : Option Path) (outputs outputs' : Outputs)
      (fs fs' done done' : FileSystem) (report report' : Report),
      fs.run (run codec manifest basename root outputs tool) = (.ok report, done) →
      fs'.run (run codec manifest basename root outputs' tool) = (.ok report', done') →
      fs.read manifest = fs'.read manifest →
      ∃ collection, fs.run (Collection.load manifest root) = (.ok collection, fs) ∧
        fs'.run (Collection.load manifest root) = (.ok collection, fs') ∧
        ((∀ path ∈ collection.dependencies, fs.read path = fs'.read path) →
          SameOutputs basename outputs outputs' done done') ∧
        ∃ text,
          (outputs.makeRules = true →
            done.read (basename.append ".d") = .ok (Utf8.encode text)) ∧
          (outputs'.makeRules = true →
            done'.read (basename.append ".d") = .ok (Utf8.encode text)) ∧
          ((rulesOf manifest basename tool collection).WellNamed →
            MakeRules.read? text = some (rulesOf manifest basename tool collection).rules ∧
            ((∀ name, MakeRules.Needs (rulesOf manifest basename tool collection).rules
                (basename.append ".pbpack").text name → fs.read ⟨name⟩ = fs'.read ⟨name⟩) →
              SameOutputs basename outputs outputs' done done')) := by
  constructor
  · intro S _ look observes collection state state' same
    exact Collection.runOn_resolve_congr observes codec collection same
  · intro manifest basename root tool outputs outputs' fs fs' done done' report report' built
      built' kept
    obtain ⟨collection, leaves⟩ := run_leaves built
    obtain ⟨collection', leaves'⟩ := run_leaves built'
    have loaded := leaves.loaded
    have loaded' := leaves'.loaded
    rw [Collection.run_load, Prod.mk.injEq] at loaded loaded'
    rw [← kept, loaded.1, Except.ok.injEq] at loaded'
    obtain rfl := loaded'.1
    have alike := leaves.sameOutputs leaves'
    refine ⟨collection, leaves.loaded, leaves'.loaded, alike, _, leaves.makeRules,
      leaves'.makeRules, ?_⟩
    intro named
    refine ⟨named.read?_render, fun unchanged => alike fun path listed => ?_⟩
    have prerequisite : path ∈ (rulesOf manifest basename tool collection).prerequisites :=
      List.mem_append_right _ listed
    exact unchanged path.text (MakeRules.needs_rules prerequisite)

/-- A manifest that spells one file in two ways, and another file it says nothing of. -/
def twoSpellings : FileSystem where
  nodes := [
    (["m"], .file (Utf8.encode ("\x7b\"palette\":\"pebble64\",\"resources\":[" ++
      "\x7b\"name\":\"A\",\"input\":\x7b\"type\":\"file\",\"file\":\"d/a\"\x7d\x7d," ++
      "\x7b\"name\":\"B\",\"input\":\x7b\"type\":\"file\",\"file\":\"d//a\"\x7d\x7d]\x7d"))),
    (["d"], .directory), (["d", "a"], .file [7]), (["x"], .file [1])]
  current := []

/-- The same with another content of the file that is not used. -/
def otherSpellings : FileSystem := twoSpellings.set ["x"] (.file [2])

def spelledCollection : Collection :=
  ⟨⟨"m"⟩, .pebble64, [⟨"A", .file ⟨"d/a"⟩⟩, ⟨"B", .file ⟨"d//a"⟩⟩]⟩

theorem read_otherSpellings {path : Path}
    (elsewhere : path.components.foldl Path.Component.enter [] ≠ ["x"]) :
    twoSpellings.read path = otherSpellings.read path := by
  have stands : twoSpellings.node? ["x"] = some (.file [1]) := by decide
  have apart : twoSpellings.locate path ≠ .ok ["x"] := by
    intro located
    exact elsewhere (FileSystem.locate_eq_ok located).symm
  exact (FileSystem.read_set_file stands apart).symm

theorem load_twoSpellings :
    Collection.ofOutcome ⟨"m"⟩ ⟨""⟩ (twoSpellings.read ⟨"m"⟩) = .ok spelledCollection := by
  have there : twoSpellings.read ⟨"m"⟩ = .ok (Utf8.encode _) := rfl
  rw [there, Collection.ofOutcome_encode]
  decide +kernel

theorem twoSpellings_unchanged :
    spelledCollection.dependencies = [⟨"d/a"⟩] ∧
      (∃ outcome,
        Files.runOn twoSpellings (spelledCollection.resolve .png) = (outcome, twoSpellings) ∧
          Files.runOn otherSpellings (spelledCollection.resolve .png) =
            (outcome, otherSpellings)) ∧
      ∃ report report' done done' text content,
        twoSpellings.run (run .png ⟨"m"⟩ ⟨"r"⟩ ⟨""⟩ ⟨true, true, true⟩ none) =
          (.ok report, done) ∧
        otherSpellings.run (run .png ⟨"m"⟩ ⟨"r"⟩ ⟨""⟩ ⟨true, true, true⟩ none) =
          (.ok report', done') ∧
        done.read ⟨"r.d"⟩ = .ok (Utf8.encode text) ∧
        MakeRules.read? text = some
          [⟨["r.pbpack"], ["m", "d/a"]⟩, ⟨["r.h"], ["r.pbpack"]⟩, ⟨["d/a"], []⟩] ∧
        done.read ⟨"r.pbpack"⟩ = .ok content ∧ done'.read ⟨"r.pbpack"⟩ = .ok content := by
  obtain ⟨resolves, builds⟩ := outputs_change_only_with_dependencies .png
  have listed : spelledCollection.dependencies = [⟨"d/a"⟩] := by decide
  refine ⟨listed, ?_, ?_⟩
  · apply resolves FileSystem.observes
    intro path member spelling same
    rw [listed, List.mem_singleton] at member
    subst member
    apply read_otherSpellings
    rw [← show Path.components ⟨"d/a"⟩ = spelling.components from same]
    decide
  · have kept : twoSpellings.read ⟨"m"⟩ = otherSpellings.read ⟨"m"⟩ :=
      read_otherSpellings (by decide)
    have known := load_twoSpellings
    obtain ⟨report, done, built⟩ : ∃ report done,
        twoSpellings.run (run .png ⟨"m"⟩ ⟨"r"⟩ ⟨""⟩ ⟨true, true, true⟩ none) =
          (.ok report, done) :=
      exists_built FileSystem.observes known (by decide)
    rw [kept] at known
    obtain ⟨report', done', built'⟩ : ∃ report done,
        otherSpellings.run (run .png ⟨"m"⟩ ⟨"r"⟩ ⟨""⟩ ⟨true, true, true⟩ none) =
          (.ok report, done) :=
      exists_built FileSystem.observes known (by decide)
    obtain ⟨collection, loaded, -, -, text, written, -, reads⟩ :=
      builds _ _ _ _ _ _ _ _ _ _ _ _ built built' kept
    rw [Collection.run_load, load_twoSpellings] at loaded
    cases loaded
    have named : (rulesOf ⟨"m"⟩ ⟨"r"⟩ none spelledCollection).WellNamed := by decide
    obtain ⟨readsBack, same⟩ := reads named
    have elsewhere : ∀ rule ∈ (rulesOf ⟨"m"⟩ ⟨"r"⟩ none spelledCollection).rules,
        ∀ name ∈ rule.prerequisites,
          (Path.components ⟨name⟩).foldl Path.Component.enter [] ≠ ["x"] := by
      decide
    have unchanged := same fun name ⟨rule, known, _, listed⟩ =>
      read_otherSpellings (elsewhere rule known name listed)
    obtain ⟨content, there, there'⟩ := unchanged.pack rfl rfl
    exact ⟨report, report', done, done', text, content, built, built', written rfl, readsBack,
      there, there'⟩

/-- A manifest of one file, whose name is two words. -/
def spacedFile (content : Bytes) : FileSystem where
  nodes := [
    (["m"], .file (Utf8.encode ("\x7b\"palette\":\"pebble64\",\"resources\":[" ++
      "\x7b\"name\":\"A\",\"input\":\x7b\"type\":\"file\",\"file\":\"my icon.png\"\x7d\x7d" ++
      "]\x7d"))),
    (["my icon.png"], .file content)]
  current := []

def spacedCollection : Collection := ⟨⟨"m"⟩, .pebble64, [⟨"A", .file ⟨"my icon.png"⟩⟩]⟩

theorem load_spacedFile (content : Bytes) :
    Collection.ofOutcome ⟨"m"⟩ ⟨""⟩ ((spacedFile content).read ⟨"m"⟩) = .ok spacedCollection := by
  have there : (spacedFile content).read ⟨"m"⟩ = .ok (Utf8.encode _) := rfl
  rw [there, Collection.ofOutcome_encode]
  decide +kernel

/-- What a build of such a manifest leaves. -/
theorem spacedFile_leaves {content : Bytes} {report : Report} {done : FileSystem}
    (built : (spacedFile content).run (run .png ⟨"m"⟩ ⟨"r"⟩ ⟨""⟩ ⟨true, true, true⟩ none) =
      (.ok report, done)) :
    done.read ⟨"r.d"⟩ =
        .ok (Utf8.encode (rulesOf ⟨"m"⟩ ⟨"r"⟩ none spacedCollection).render) ∧
      done.HoldsPack ⟨"r.pbpack"⟩ [content] := by
  obtain ⟨collection, leaves⟩ := run_leaves built
  have loaded := leaves.loaded
  rw [Collection.run_load, load_spacedFile] at loaded
  cases loaded
  have there : (spacedFile content).read ⟨"my icon.png"⟩ = .ok content := rfl
  refine ⟨leaves.makeRules rfl, ?_⟩
  obtain ⟨image, assembled, packed⟩ := leaves.pack rfl
  obtain ⟨-, yields, -⟩ := Collection.run_resolveFrom_eq_ok (leaves.resolved (.inl rfl))
  have blobs : report.resources.map Resolved.bytes = [content] := by
    generalize report.resources.map Resolved.bytes = blobs at yields
    obtain _ | ⟨first, _ | _⟩ := yields
    rw [Collection.run_bytes, Source.path, there] at first
    cases first
    rfl
  rw [blobs] at assembled
  exact FileSystem.holdsPack_of_assemble assembled packed

/-- A change of the file changes the pack, but nothing that make reads in the rules. -/
theorem change_of_spaced_file_is_missed :
    ∃ report report' done done' text rules,
      (spacedFile [7]).run (run .png ⟨"m"⟩ ⟨"r"⟩ ⟨""⟩ ⟨true, true, true⟩ none) =
        (.ok report, done) ∧
      (spacedFile [8]).run (run .png ⟨"m"⟩ ⟨"r"⟩ ⟨""⟩ ⟨true, true, true⟩ none) =
        (.ok report', done') ∧
      done.read ⟨"r.d"⟩ = .ok (Utf8.encode text) ∧
      done'.read ⟨"r.d"⟩ = .ok (Utf8.encode text) ∧
      MakeRules.read? text = some rules ∧
      (∀ rule ∈ rules, ∀ name ∈ rule.prerequisites,
        (spacedFile [7]).read ⟨name⟩ = (spacedFile [8]).read ⟨name⟩) ∧
      done.read ⟨"r.pbpack"⟩ ≠ done'.read ⟨"r.pbpack"⟩ := by
  obtain ⟨report, done, built⟩ : ∃ report done,
      (spacedFile [7]).run (run .png ⟨"m"⟩ ⟨"r"⟩ ⟨""⟩ ⟨true, true, true⟩ none) =
        (.ok report, done) :=
    exists_built FileSystem.observes (load_spacedFile [7]) (by decide)
  obtain ⟨report', done', built'⟩ : ∃ report done,
      (spacedFile [8]).run (run .png ⟨"m"⟩ ⟨"r"⟩ ⟨""⟩ ⟨true, true, true⟩ none) =
        (.ok report, done) :=
    exists_built FileSystem.observes (load_spacedFile [8]) (by decide)
  obtain ⟨written, packed⟩ := spacedFile_leaves built
  obtain ⟨written', packed'⟩ := spacedFile_leaves built'
  have reads : MakeRules.read? (rulesOf ⟨"m"⟩ ⟨"r"⟩ none spacedCollection).render = some
      [⟨["r.pbpack"], ["m", "my", "icon.png"]⟩, ⟨["r.h"], ["r.pbpack"]⟩,
        ⟨["my", "icon.png"], []⟩] := by
    decide +kernel
  refine ⟨report, report', done, done', _, _, built, built', written, written', reads, ?_, ?_⟩
  · decide
  · intro same
    exact absurd (packed.blobs_eq packed' same) (by decide)

end Build

end ResourcePack
