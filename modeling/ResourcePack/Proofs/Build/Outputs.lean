import Mathlib.Data.List.Forall2
import ResourcePack.Build.Outputs
import ResourcePack.Proofs.Files.Running
import ResourcePack.Proofs.Files.Writing
import ResourcePack.Proofs.Pack.RoundTrip
import ResourcePack.Proofs.Text.Utf8

/-!
# What a build leaves

All reads of a build come before its first write, so its outputs are determined by the
tree it starts from. The pack and the header number the resources independently, the one
while it lays them out, the other while it resolves them; both count from 1 in the order
of the manifest, so that the header names what the pack stores.
-/

namespace ResourcePack

open FileSystem

/-- A file that opens as a pack of these resources, with the index of each one after the
one before. -/
def FileSystem.HoldsPack (fs : FileSystem) (path : Path) (blobs : List Bytes) : Prop :=
  ∃ content archive, fs.read path = .ok content ∧
    Pack.Archive.ofBytes path content = .ok archive ∧ archive.records.length = blobs.length ∧
    archive.header.checksum = Checksum.ofBytes blobs.flatten ∧
    ∀ (i : Nat) (hi : i < blobs.length), ∃ record, archive.records[i]? = some record ∧
      record.index.toInt = i + 1 ∧ record.size.toInt = blobs[i].length ∧
      record.checksum = Checksum.ofBytes blobs[i] ∧ archive.extract record.index = .ok blobs[i]

theorem FileSystem.holdsPack_of_assemble {fs : FileSystem} {path : Path} {blobs : List Bytes}
    {image : Pack.Image} (assembled : Pack.assemble blobs = .ok image)
    (there : fs.read path = .ok image.toBytes) : fs.HoldsPack path blobs := by
  obtain ⟨archive, opened, -, -, holds⟩ := Pack.Archive.ofBytes_assemble path assembled
  refine ⟨_, archive, there, opened, by rw [holds.records, Pack.length_laidOut],
    holds.checksum, ?_⟩
  intro i hi
  obtain ⟨record, slot, index, -, size, checksum⟩ := holds.record hi
  exact ⟨record, slot, index, size, checksum, holds.extract hi index⟩

/-- A file is a pack of one list of resources at most. -/
theorem FileSystem.HoldsPack.blobs_eq {fs fs' : FileSystem} {path : Path}
    {blobs blobs' : List Bytes} (holds : fs.HoldsPack path blobs)
    (holds' : fs'.HoldsPack path blobs') (same : fs.read path = fs'.read path) :
    blobs = blobs' := by
  obtain ⟨content, archive, there, opened, length, -, record⟩ := holds
  obtain ⟨content', archive', there', opened', length', -, record'⟩ := holds'
  rw [same, there', Except.ok.injEq] at there
  subst there
  rw [opened', Except.ok.injEq] at opened
  subst opened
  refine List.ext_getElem (length.symm.trans length') fun i inside inside' => ?_
  obtain ⟨here, slot, -, -, -, extracted⟩ := record i inside
  obtain ⟨here', slot', -, -, -, extracted'⟩ := record' i inside'
  rw [slot, Option.some.injEq] at slot'
  rw [slot', extracted', Except.ok.injEq] at extracted
  exact extracted.symm

namespace Collection

/-- The line of the header for the entry at a position. -/
def symbolLine (position : Nat) (entry : Entry) : String :=
  s!"    {entry.name} = {position + 1}, /* (from {entry.source.provenance}) */\n"

/-- Each source yields its bytes, and nothing is changed. -/
def Yields (codec : Codec) (fs : FileSystem) (entries : List Entry) (blobs : List Bytes) : Prop :=
  List.Forall₂ (fun entry blob => fs.run (entry.source.bytes codec) = (.ok blob, fs)) entries blobs

/-- Of a text in a file nothing is lost. -/
theorem manifestOf_encode (path : Path) (text : String) :
    manifestOf path (.ok (Utf8.encode text)) = Manifest.parse path text := by
  simp only [manifestOf, Utf8.decode?_encode]

theorem ofOutcome_encode (manifestPath root : Path) (text : String) :
    ofOutcome manifestPath root (.ok (Utf8.encode text)) =
      ((Manifest.parse manifestPath text).mapError .manifest).bind
        (ofManifest · manifestPath root) := by
  rw [ofOutcome, manifestOf_encode]
  rfl

variable {codec : Codec} {fs done : FileSystem}

theorem run_load (manifest root : Path) :
    fs.run (load manifest root) = (ofOutcome manifest root (fs.read manifest), fs) := rfl

theorem run_bytes (source : Source) :
    fs.run (source.bytes codec) = (source.ofOutcome codec (fs.read source.path), fs) := rfl

/-- An entry resolves to the bytes of its source, numbered by its position. -/
theorem run_resolveEntry_eq_ok {position : Nat} {entry : Entry} {resource : Resolved}
    (ran : fs.run (resolveEntry codec position entry) = (.ok resource, done)) :
    done = fs ∧ ∃ blob, fs.run (entry.source.bytes codec) = (.ok blob, fs) ∧
      resource = resolved position entry blob := by
  have opened : fs.run (resolveEntry codec position entry) =
      (naming position entry.name ((entry.source.ofOutcome codec (fs.read entry.source.path)).map
        (resolved position entry)), fs) := rfl
  rw [opened, Prod.mk.injEq, naming, Outcome.mapError_eq_ok, Outcome.map_eq_ok] at ran
  obtain ⟨⟨blob, yielded, rfl⟩, rfl⟩ := ran
  exact ⟨rfl, blob, by rw [run_bytes, yielded], rfl⟩

/-- Resolving keeps the order: every position has the bytes and the line of its entry. -/
theorem run_resolveFrom_eq_ok {position : Nat} {entries : List Entry} {resources : List Resolved}
    (ran : fs.run (resolveFrom codec position entries) = (.ok resources, done)) :
    done = fs ∧ Yields codec fs entries (resources.map Resolved.bytes) ∧
      resources.map SymbolHeader.line = entries.mapIdx fun i => symbolLine (position + i) := by
  induction entries generalizing position resources fs done with
  | nil =>
      rw [resolveFrom, run_pure] at ran
      cases ran
      exact ⟨rfl, .nil, rfl⟩
  | cons entry rest ih =>
      obtain ⟨resource, middle, first, later⟩ := run_bind_eq_ok.mp ran
      obtain ⟨others, final, second, last⟩ := run_bind_eq_ok.mp later
      cases last
      obtain ⟨rfl, blob, yielded, rfl⟩ := run_resolveEntry_eq_ok first
      obtain ⟨rfl, yields, lines⟩ := ih second
      refine ⟨rfl, .cons yielded yields, ?_⟩
      have onward : ∀ i, position + 1 + i = position + (i + 1) := by omega
      rw [List.map_cons, lines, List.mapIdx_cons]
      simp only [onward]
      rfl

end Collection

namespace Build

variable {codec : Codec} {manifest basename root : Path} {tool : Option Path}
  {outputs : Outputs} {fs done : FileSystem}

theorem run_writeText_eq_ok {path : Path} {text : String} {written : Written}
    (ran : fs.run (writeText path text) = (.ok written, done)) :
    fs.write path (Utf8.encode text) = .ok done := by
  rw [writeText, run_write] at ran
  cases wrote : fs.write path (Utf8.encode text) with
  | error cause =>
      rw [wrote] at ran
      cases ran
  | ok changed =>
      rw [wrote] at ran
      cases ran
      rfl

theorem run_writePack_eq_ok {path : Path} {resources : List Resolved} {written : Written}
    (ran : fs.run (writePack path resources) = (.ok written, done)) :
    ∃ image, Pack.assemble (resources.map Resolved.bytes) = .ok image ∧
      fs.write path image.toBytes = .ok done := by
  unfold writePack at ran
  cases assembled : Pack.assemble (resources.map Resolved.bytes) with
  | error cause =>
      rw [assembled] at ran
      cases ran
  | ok image =>
      simp only [assembled, run_write] at ran
      cases wrote : fs.write path image.toBytes with
      | error cause =>
          rw [wrote] at ran
          cases ran
      | ok changed =>
          rw [wrote] at ran
          cases ran
          exact ⟨image, rfl, wrote⟩

/-- What is not asked for changes nothing. -/
theorem run_optionally_eq_ok {α : Type} {asked : Bool}
    {action : ExceptT Error (StateM FileSystem) α} {results : List α}
    (ran : fs.run (optionally asked action) = (.ok results, done)) :
    if asked then ∃ a, fs.run action = (.ok a, done) else done = fs := by
  cases asked with
  | false =>
      cases ran
      rfl
  | true =>
      obtain ⟨a, middle, first, ran⟩ := run_bind_eq_ok.mp ran
      cases ran
      exact ⟨a, first⟩

/-- What is to be found after a build that ran on `fs`. No part depends on what else was
asked for. -/
structure Leaves (codec : Codec) (manifest basename root : Path) (tool : Option Path)
    (fs : FileSystem) (outputs : Outputs) (collection : Collection) (resources : List Resolved)
    (done : FileSystem) : Prop where
  loaded : fs.run (Collection.load manifest root) = (.ok collection, fs)
  resolved : outputs.pack = true ∨ outputs.header = true →
    fs.run (collection.resolve codec) = (.ok resources, fs)
  pack : outputs.pack = true → ∃ image, Pack.assemble (resources.map Resolved.bytes) = .ok image ∧
    done.read (basename.append ".pbpack") = .ok image.toBytes
  header : outputs.header = true →
    done.read (basename.append ".h") = .ok (Utf8.encode (SymbolHeader.render resources))
  makeRules : outputs.makeRules = true →
    done.read (basename.append ".d") = .ok (Utf8.encode (MakeRules.render
      { pack := basename.append ".pbpack", header := basename.append ".h", manifest, tool
        dependencies := collection.dependencies }))

theorem runOn_load {S : Type} [Files (StateM S)] {look : S → Path → Except FileError Bytes}
    (observes : Files.Observes look) (manifest root : Path) (state : S) :
    Files.runOn state (Collection.load manifest root) =
      (Collection.ofOutcome manifest root (look state manifest), state) := by
  change (Collection.ofOutcome manifest root ((Files.read manifest : StateM S _) state).1,
    ((Files.read manifest : StateM S _) state).2) = _
  rw [observes.read]

section Steps

variable {m : Type → Type} [Monad m] [Files m]

/-- The resources a build works with: none if nothing needs them. -/
def needed (codec : Codec) (outputs : Outputs) (collection : Collection) :
    ExceptT Error m (List Resolved) :=
  if outputs.pack || outputs.header then collection.resolve codec else pure []

/-- The build of a collection that has been loaded. -/
def ofCollection (codec : Codec) (manifest basename : Path) (outputs : Outputs)
    (tool : Option Path) (collection : Collection) : ExceptT Error m Report := do
  let resources ← needed codec outputs collection
  let packWritten ← optionally outputs.pack (writePack (basename.append ".pbpack") resources)
  let headerWritten ← optionally outputs.header (writeHeader (basename.append ".h") resources)
  let rulesWritten ← optionally outputs.makeRules (writeMakeRules (basename.append ".d")
    { pack := basename.append ".pbpack", header := basename.append ".h", manifest, tool
      dependencies := collection.dependencies })
  return { resources, written := packWritten ++ headerWritten ++ rulesWritten }

/-- A build is a sequence of five steps, each of which may have nothing to do. -/
theorem run_eq_steps [LawfulMonad m] :
    (run codec manifest basename root outputs tool : ExceptT Error m Report) =
      Collection.load manifest root >>=
        ofCollection codec manifest basename outputs tool := by
  unfold run ofCollection needed
  congr 1
  funext collection
  split
  · rfl
  · rw [pure_bind]

end Steps

/-- The manifest counts only for what it is loaded as. -/
theorem runOn_run_of_loaded {S : Type} [Files (StateM S)]
    {look : S → Path → Except FileError Bytes} (observes : Files.Observes look) (state : S)
    {collection : Collection}
    (loaded : Collection.ofOutcome manifest root (look state manifest) = .ok collection) :
    Files.runOn state (run codec manifest basename root outputs tool) =
      Files.runOn state (ofCollection codec manifest basename outputs tool collection) := by
  rw [run_eq_steps, Files.runOn_bind, runOn_load observes, loaded]

/-- A build of a manifest that loads succeeds if that of its collection does. -/
theorem exists_built {S : Type} [Files (StateM S)] {look : S → Path → Except FileError Bytes}
    (observes : Files.Observes look) {state : S} {collection : Collection}
    (loaded : Collection.ofOutcome manifest root (look state manifest) = .ok collection)
    (succeeds : (Files.runOn state
      (ofCollection codec manifest basename outputs tool collection)).1.isOk = true) :
    ∃ report done,
      Files.runOn state (run codec manifest basename root outputs tool) = (.ok report, done) := by
  rw [runOn_run_of_loaded observes state loaded]
  exact Files.exists_of_isOk succeeds

theorem pack_endsIn (basename : Path) : (basename.append ".pbpack").EndsIn 'k' :=
  basename.endsIn_append rfl (by decide)

theorem header_endsIn (basename : Path) : (basename.append ".h").EndsIn 'h' :=
  basename.endsIn_append rfl (by decide)

theorem makeRules_endsIn (basename : Path) : (basename.append ".d").EndsIn 'd' :=
  basename.endsIn_append rfl (by decide)

/-- A text leaves what is in the other outputs. -/
theorem read_optionally_writeText {asked : Bool} {path other : Path} {text : String}
    {results : List Written} {found : Bytes} {c c' : Char} (ends : path.EndsIn c)
    (ends' : other.EndsIn c') (apart : c ≠ c')
    (ran : fs.run (optionally asked (writeText path text)) = (.ok results, done))
    (there : fs.read other = .ok found) : done.read other = .ok found := by
  replace ran := run_optionally_eq_ok ran
  cases asked with
  | false =>
      cases ran
      exact there
  | true =>
      obtain ⟨written, ran⟩ := ran
      exact read_write_of_ends_ne ends ends' apart (run_writeText_eq_ok ran) there

/-- A text that is asked for is there. -/
theorem read_writeText {asked : Bool} {path : Path} {text : String} {results : List Written}
    (ran : fs.run (optionally asked (writeText path text)) = (.ok results, done))
    (on : asked = true) : done.read path = .ok (Utf8.encode text) := by
  subst on
  obtain ⟨written, ran⟩ := run_optionally_eq_ok ran
  exact read_write (run_writeText_eq_ok ran)

/-- So is a pack, and it is that of the resources. -/
theorem read_writePack {asked : Bool} {path : Path} {resources : List Resolved}
    {results : List Written}
    (ran : fs.run (optionally asked (writePack path resources)) = (.ok results, done))
    (on : asked = true) :
    ∃ image, Pack.assemble (resources.map Resolved.bytes) = .ok image ∧
      done.read path = .ok image.toBytes := by
  subst on
  obtain ⟨written, ran⟩ := run_optionally_eq_ok ran
  obtain ⟨image, assembled, wrote⟩ := run_writePack_eq_ok ran
  exact ⟨image, assembled, read_write wrote⟩

/-- The names of the outputs differ in their last characters, so no write undoes an
earlier one, however the base name is spelled. -/
theorem run_leaves {report : Report}
    (built : fs.run (run codec manifest basename root outputs tool) = (.ok report, done)) :
    ∃ collection, Leaves codec manifest basename root tool fs outputs collection
      report.resources done := by
  rw [run_eq_steps] at built
  obtain ⟨collection, afterLoad, loaded, built₁⟩ := run_bind_eq_ok.mp built
  obtain ⟨resources, afterReads, resolved, built₂⟩ := run_bind_eq_ok.mp built₁
  obtain ⟨_, afterPack, packed, built₃⟩ := run_bind_eq_ok.mp built₂
  obtain ⟨_, afterHeader, headed, built₄⟩ := run_bind_eq_ok.mp built₃
  obtain ⟨_, afterRules, ruled, finished⟩ := run_bind_eq_ok.mp built₄
  cases finished
  obtain rfl : fs = afterLoad := congrArg Prod.snd loaded
  refine ⟨collection, loaded, ?_, ?_, ?_, ?_⟩
  · intro wanted
    have wanted : (outputs.pack || outputs.header) = true := by simpa using wanted
    rw [needed, if_pos wanted] at resolved
    obtain ⟨rfl, -⟩ := Collection.run_resolveFrom_eq_ok resolved
    exact resolved
  · intro on
    obtain ⟨image, assembled, there⟩ := read_writePack packed on
    have kept : afterHeader.read (basename.append ".pbpack") = .ok image.toBytes :=
      read_optionally_writeText (header_endsIn _) (pack_endsIn _) (by decide) headed there
    exact ⟨image, assembled,
      read_optionally_writeText (makeRules_endsIn _) (pack_endsIn _) (by decide) ruled kept⟩
  · intro on
    exact read_optionally_writeText (makeRules_endsIn _) (header_endsIn _) (by decide) ruled
      (read_writeText headed on)
  · exact read_writeText ruled

namespace Leaves

variable {fs' done' : FileSystem} {outputs' : Outputs} {collection collection' : Collection}
  {resources resources' : List Resolved}

/-- Of the same resources the same pack is made. -/
theorem pack_alike
    (leaves : Leaves codec manifest basename root tool fs outputs collection resources done)
    (leaves' : Leaves codec manifest basename root tool fs' outputs' collection' resources' done')
    (alike : resources = resources') (on : outputs.pack = true) (on' : outputs'.pack = true) :
    ∃ content, done.read (basename.append ".pbpack") = .ok content ∧
      done'.read (basename.append ".pbpack") = .ok content := by
  obtain ⟨image, assembled, there⟩ := leaves.pack on
  obtain ⟨image', assembled', there'⟩ := leaves'.pack on'
  rw [← alike, assembled, Except.ok.injEq] at assembled'
  exact ⟨_, there, by rw [there', assembled']⟩

/-- Of the same resources the same header is made. -/
theorem header_alike
    (leaves : Leaves codec manifest basename root tool fs outputs collection resources done)
    (leaves' : Leaves codec manifest basename root tool fs' outputs' collection' resources' done')
    (alike : resources = resources') (on : outputs.header = true) (on' : outputs'.header = true) :
    ∃ content, done.read (basename.append ".h") = .ok content ∧
      done'.read (basename.append ".h") = .ok content :=
  ⟨_, leaves.header on, by rw [leaves'.header on', alike]⟩

end Leaves

/-- Whatever is built, the pack holds what the sources yield on the tree before, the header
counts the same entries in the same order, and what else is asked for changes no output. -/
theorem pack_and_header_number_alike {report : Report}
    (built : fs.run (run codec manifest basename root outputs tool) = (.ok report, done)) :
    ∃ collection, fs.run (Collection.load manifest root) = (.ok collection, fs) ∧
      (outputs.pack = true ∨ outputs.header = true →
        ∃ blobs, Collection.Yields codec fs collection.entries blobs ∧
          (outputs.pack = true → done.HoldsPack (basename.append ".pbpack") blobs) ∧
          (outputs.header = true → done.read (basename.append ".h") = .ok (Utf8.encode
            (SymbolHeader.prologue ++
              String.join (collection.entries.mapIdx Collection.symbolLine) ++
              SymbolHeader.epilogue)))) ∧
      ∀ (other : Outputs) (report' : Report) (done' : FileSystem),
        fs.run (run codec manifest basename root other tool) = (.ok report', done') →
          (outputs.pack = true → other.pack = true → ∃ content,
            done.read (basename.append ".pbpack") = .ok content ∧
              done'.read (basename.append ".pbpack") = .ok content) ∧
          (outputs.header = true → other.header = true → ∃ content,
            done.read (basename.append ".h") = .ok content ∧
              done'.read (basename.append ".h") = .ok content) ∧
          (outputs.makeRules = true → other.makeRules = true → ∃ content,
            done.read (basename.append ".d") = .ok content ∧
              done'.read (basename.append ".d") = .ok content) := by
  obtain ⟨collection, leaves⟩ := run_leaves built
  refine ⟨collection, leaves.loaded, ?_, ?_⟩
  · intro wanted
    obtain ⟨-, yields, lines⟩ := Collection.run_resolveFrom_eq_ok (leaves.resolved wanted)
    refine ⟨_, yields, ?_, ?_⟩
    · intro on
      obtain ⟨image, assembled, there⟩ := leaves.pack on
      exact holdsPack_of_assemble assembled there
    · intro on
      rw [leaves.header on, SymbolHeader.render, lines]
      simp only [Nat.zero_add]
  · intro other report' done' built'
    obtain ⟨collection', leaves'⟩ := run_leaves built'
    obtain rfl : collection = collection' := by
      simpa using leaves.loaded.symm.trans leaves'.loaded
    have alike (wanted : outputs.pack = true ∨ outputs.header = true)
        (wanted' : other.pack = true ∨ other.header = true) :
        report.resources = report'.resources := by
      simpa using (leaves.resolved wanted).symm.trans (leaves'.resolved wanted')
    exact ⟨fun on on' => leaves.pack_alike leaves' (alike (.inl on) (.inl on')) on on',
      fun on on' => leaves.header_alike leaves' (alike (.inr on) (.inr on')) on on',
      fun on on' => ⟨_, leaves.makeRules on, leaves'.makeRules on'⟩⟩

/-- A manifest of two files, the second one empty. -/
def twoFiles : FileSystem where
  nodes := [
    (["m"], .file (Utf8.encode ("\x7b\"palette\":\"pebble64\",\"resources\":[" ++
      "\x7b\"name\":\"A\",\"input\":\x7b\"type\":\"file\",\"file\":\"a\"\x7d\x7d," ++
      "\x7b\"name\":\"B\",\"input\":\x7b\"type\":\"file\",\"file\":\"b\"\x7d\x7d]\x7d"))),
    (["a"], .file [7]), (["b"], .file [])]
  current := []

theorem load_twoFiles : Collection.ofOutcome ⟨"m"⟩ ⟨""⟩ (twoFiles.read ⟨"m"⟩) =
    .ok ⟨⟨"m"⟩, .pebble64, [⟨"A", .file ⟨"a"⟩⟩, ⟨"B", .file ⟨"b"⟩⟩]⟩ := by
  have there : twoFiles.read ⟨"m"⟩ = .ok (Utf8.encode _) := rfl
  rw [there, Collection.ofOutcome_encode]
  decide +kernel

theorem twoFiles_number_alike :
    ∃ report done,
      twoFiles.run (run .png ⟨"m"⟩ ⟨"r"⟩ ⟨""⟩ ⟨true, true, false⟩ none) = (.ok report, done) ∧
        done.HoldsPack ⟨"r.pbpack"⟩ [[7], []] ∧
        done.read ⟨"r.h"⟩ = .ok (Utf8.encode (SymbolHeader.prologue ++
          "    A = 1, /* (from a) */\n    B = 2, /* (from b) */\n" ++ SymbolHeader.epilogue)) := by
  obtain ⟨report, done, built⟩ : ∃ report done,
      twoFiles.run (run .png ⟨"m"⟩ ⟨"r"⟩ ⟨""⟩ ⟨true, true, false⟩ none) = (.ok report, done) :=
    exists_built FileSystem.observes load_twoFiles (by decide)
  obtain ⟨collection, loaded, numbered, -⟩ := pack_and_header_number_alike built
  obtain ⟨blobs, yields, packed, headed⟩ := numbered (.inl rfl)
  rw [Collection.run_load, load_twoFiles] at loaded
  cases loaded
  obtain _ | ⟨first, _ | ⟨second, _ | _⟩⟩ := yields
  cases first
  cases second
  exact ⟨report, done, built, packed rfl, headed rfl⟩

end Build

end ResourcePack
