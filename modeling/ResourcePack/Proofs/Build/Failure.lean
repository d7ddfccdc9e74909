import ResourcePack.Proofs.Build.Drafts
import ResourcePack.Proofs.Build.FirstFailure
import ResourcePack.Proofs.Pack.Limits

/-!
# What a failed build leaves

A build fails while it plans, and then no file has changed, or while it writes what is
planned. In that case the outputs before the one that failed are complete, those after it
are as they were, and nothing else has changed. The cause tells which of the two it was.
-/

namespace ResourcePack

open FileSystem

namespace Build

namespace Error

/-- The output that could not be written, if that is the cause. A pack that a resource is
taken from is no output. -/
def unwritten? : Error → Option Path
  | .write path _ => some path
  | .pack (.file path _) => some path
  | _ => none

theorem unwritten?_unwritable (draft : Draft) (reason : FileError) :
    (draft.unwritable reason).unwritten? = some draft.path := by
  cases draft <;> rfl

end Error

variable {codec : Codec} {manifest basename root : Path} {outputs : Outputs} {tool : Option Path}

section Observed

variable {S : Type} [Files (StateM S)] {look : S → Path → Except FileError Bytes}
  {state done : S}

/-- A plan that cannot be made is not for want of an output, and nothing has changed. -/
theorem runOn_plan_eq_error (observes : Files.Observes look) {cause : Error}
    (failed : Files.runOn state (plan codec manifest basename root outputs tool) =
      (.error cause, done)) :
    done = state ∧ cause.unwritten? = none := by
  rw [runOn_plan observes, Prod.mk.injEq] at failed
  refine ⟨failed.2.symm, ?_⟩
  obtain unloaded | ⟨collection, -, failed⟩ := planFrom_eq_error_iff.mp failed.1
  · obtain ⟨inner, -, rfl⟩ | ⟨written, -, defect⟩ :=
      Collection.ofOutcome_eq_error_iff.mp unloaded
    · rfl
    · cases defect <;> rfl
  · obtain unresolved | ⟨resources, -, unpacked⟩ := failed
    · obtain ⟨-, i, entry, inner, -, rfl⟩ := neededFrom_eq_error_iff.mp unresolved
      rfl
    · obtain ⟨-, inner, refused, rfl⟩ := draftPack_eq_error_iff.mp unpacked
      obtain rfl | ⟨size, rfl⟩ := Pack.assemble_eq_error refused <;> rfl

end Observed

variable {disk done : Disk}

/-- Drafts that fail do so at an output, and what comes before and after it is as it should
be. -/
theorem runOn_writeDrafts_leaves {drafts : List Draft} {cause : Error}
    (apart : drafts.Pairwise fun draft later => draft.path.EndApart later.path)
    (failed : Files.runOn disk (writeDrafts drafts) = (.error cause, done)) :
    ∃ written last skipped, drafts = written ++ last :: skipped ∧
      cause.unwritten? = some last.path ∧
      (∀ draft ∈ written, done.files.read draft.path = .ok draft.content) ∧
      (∀ draft ∈ skipped, SameContent disk.files done.files draft.path) ∧
      ∀ position, (∀ draft ∈ written ++ [last], disk.files.target draft.path ≠ .ok position) →
        done.files.node? position = disk.files.node? position := by
  obtain ⟨written, last, skipped, reports, middle, rfl, wrote, stopped⟩ :=
    runOn_writeDrafts_eq_error failed
  obtain ⟨apartWritten, apartRest, apartLater⟩ := List.pairwise_append.mp apart
  obtain ⟨apartLast, -⟩ := List.pairwise_cons.mp apartRest
  obtain ⟨reason, -, rfl⟩ := runOn_writeDraft_eq_error stopped
  have lastRun : Files.runOn middle (writeDrafts [last]) =
      (.error (last.unwritable reason), done) := by
    rw [writeDrafts, Files.runOn_bind, stopped]
  have attempted : Files.runOn disk (writeDrafts (written ++ [last])) =
      (.error (last.unwritable reason), done) := by
    rw [writeDrafts_append, Files.runOn_bind, wrote]
    simp only [Files.runOn_bind, lastRun]
  refine ⟨written, last, skipped, rfl, Error.unwritten?_unwritable last reason, ?_, ?_,
    fun position => node?_writeDrafts attempted⟩
  · intro draft member
    refine (sameContent_writeDrafts lastRun ?_ _).mp
      (read_writeDrafts apartWritten wrote draft member)
    intro other among
    obtain rfl := List.mem_singleton.mp among
    exact not_overwrites_of_endApart (apartLater draft member other List.mem_cons_self).symm
  · intro draft member
    apply sameContent_writeDrafts attempted
    intro other among
    obtain early | among := List.mem_append.mp among
    · exact not_overwrites_of_endApart
        (apartLater other early draft (List.mem_cons_of_mem _ member))
    · obtain rfl := List.mem_singleton.mp among
      exact not_overwrites_of_endApart (apartLast draft member)

/-- A build that fails for any other reason than an output has changed nothing. One that
fails at an output has planned all of them: those before it are complete, those after it are
as they were, and nothing has changed but where these outputs go. It makes no difference
which outputs are asked for, or whether the device leaves something in the one that failed. -/
theorem failed_build_spares_the_rest (codec : Codec) (manifest basename root : Path)
    (outputs : Outputs) (tool : Option Path) (disk done : Disk) (cause : Error)
    (failed : Files.runOn disk (run codec manifest basename root outputs tool) =
      (.error cause, done)) :
    (cause.unwritten? = none → done = disk) ∧
    ∀ path, cause.unwritten? = some path → ∃ made written last skipped,
      Files.runOn disk (plan codec manifest basename root outputs tool) = (.ok made, disk) ∧
      made.drafts.map Draft.path = outputs.paths basename ∧
      made.drafts = written ++ last :: skipped ∧ last.path = path ∧
      (∀ draft ∈ written, done.files.read draft.path = .ok draft.content) ∧
      (∀ draft ∈ skipped, SameContent disk.files done.files draft.path) ∧
      ∀ position, (∀ draft ∈ written ++ [last], disk.files.target draft.path ≠ .ok position) →
        done.files.node? position = disk.files.node? position := by
  rw [run_eq_plan] at failed
  obtain unplanned | ⟨made, middle, planned, unfinished⟩ := Files.runOn_bind_eq_error.mp failed
  · obtain ⟨rfl, other⟩ := runOn_plan_eq_error Disk.observes unplanned
    refine ⟨fun _ => rfl, ?_⟩
    intro path unwritten
    cases other.symm.trans unwritten
  · obtain rfl := runOn_plan_state Disk.observes planned
    obtain stopped | ⟨reports, _, -, last⟩ := Files.runOn_bind_eq_error.mp unfinished
    · obtain ⟨written, last, skipped, split, unwritten, complete, spared, kept⟩ :=
        runOn_writeDrafts_leaves (pairwise_drafts Disk.observes planned) stopped
      constructor
      · intro other
        cases other.symm.trans unwritten
      · intro path there
        cases unwritten.symm.trans there
        exact ⟨made, written, last, skipped, planned, map_path_drafts Disk.observes planned, split,
          rfl, complete, spared, kept⟩
    · cases last

/-- A device that is full after the first byte of one file. -/
def fullAt (path : Path) : Device where
  store _ other content :=
    if other = path then (some (content.take 1), .error (.system 28)) else (some content, .ok ())
  faithful _ other content stored := by
    split at stored
    · cases stored
    · rename_i elsewhere
      rw [if_neg elsewhere]

/-- The pack of the two files comes first, then the texts. -/
theorem drafts_twoFiles {device : Device} {count : Nat} {made : Plan}
    (planned : Files.runOn (Disk.mk device twoFiles count)
      (plan .png ⟨"m"⟩ ⟨"r"⟩ ⟨""⟩ ⟨true, true, true⟩ none) = (.ok made, done)) :
    ∃ image header rules, Pack.assemble [[7], []] = .ok image ∧
      made.drafts = [.pack ⟨"r.pbpack"⟩ image, .text ⟨"r.h"⟩ header, .text ⟨"r.d"⟩ rules] := by
  obtain ⟨resources, drafts⟩ := made
  obtain ⟨collection, packs, loaded, resolved, drafted, written⟩ :=
    runOn_plan_eq_ok Disk.observes planned
  cases load_twoFiles.symm.trans loaded
  rw [runOn_needed Disk.observes, Prod.mk.injEq] at resolved
  cases resolved.1
  rw [draftPack, if_pos rfl] at drafted
  obtain ⟨image, assembled, rfl⟩ := Outcome.map_eq_ok.mp drafted
  exact ⟨image, _, _, Outcome.mapError_eq_ok.mp assembled, written⟩

theorem twoFiles_failed_spares_the_rest :
    (∃ done, Files.runOn (Disk.mk .reliable (twoFiles.erase ["b"]) 0)
        (run .png ⟨"m"⟩ ⟨"r"⟩ ⟨""⟩ ⟨true, true, true⟩ none) =
          (.error (.resource 2 "B" (.read ⟨"b"⟩ .notFound)), done) ∧
        done = ⟨.reliable, twoFiles.erase ["b"], 0⟩) ∧
      ∃ done, Files.runOn (Disk.mk (fullAt ⟨"r.h"⟩) twoFiles 0)
          (run .png ⟨"m"⟩ ⟨"r"⟩ ⟨""⟩ ⟨true, true, true⟩ none) =
            (.error (.write ⟨"r.h"⟩ (.system 28)), done) ∧
        done.files.HoldsPack ⟨"r.pbpack"⟩ [[7], []] ∧
        SameContent twoFiles done.files ⟨"r.d"⟩ ∧
        done.files.node? ["a"] = some (.file [7]) := by
  constructor
  · have fails : (Files.runOn (Disk.mk .reliable (twoFiles.erase ["b"]) 0)
        (run .png ⟨"m"⟩ ⟨"r"⟩ ⟨""⟩ ⟨true, true, true⟩ none)).1 =
          .error (.resource 2 "B" (.read ⟨"b"⟩ .notFound)) := by
      have sameManifest : (twoFiles.erase ["b"]).read ⟨"m"⟩ = twoFiles.read ⟨"m"⟩ := by rfl
      have loaded := load_twoFiles
      rw [← sameManifest] at loaded
      rw [runOn_run_of_loaded Disk.observes ⟨.reliable, twoFiles.erase ["b"], 0⟩ loaded]
      decide
    obtain ⟨done, failed⟩ := Files.exists_of_outcome fails
    exact ⟨done, failed, (failed_build_spares_the_rest _ _ _ _ _ _ _ _ _ failed).1 rfl⟩
  · have fails : (Files.runOn (Disk.mk (fullAt ⟨"r.h"⟩) twoFiles 0)
        (run .png ⟨"m"⟩ ⟨"r"⟩ ⟨""⟩ ⟨true, true, true⟩ none)).1 =
          .error (.write ⟨"r.h"⟩ (.system 28)) := by
      rw [runOn_run_of_loaded Disk.observes ⟨fullAt ⟨"r.h"⟩, twoFiles, 0⟩ load_twoFiles]
      decide
    obtain ⟨done, failed⟩ := Files.exists_of_outcome fails
    obtain ⟨made, written, last, skipped, planned, -, split, atHeader, complete, spared, kept⟩ :=
      (failed_build_spares_the_rest _ _ _ _ _ _ _ _ _ failed).2 _ rfl
    obtain ⟨image, header, rules, assembled, drafts⟩ := drafts_twoFiles planned
    rw [drafts] at split
    -- The header comes second, so the pack is before it and the rules are after it.
    obtain _ | ⟨first, _ | ⟨second, others⟩⟩ := written
    · cases split
      exact absurd atHeader (by decide : (⟨"r.pbpack"⟩ : Path) ≠ ⟨"r.h"⟩)
    · cases split
      refine ⟨done, failed, holdsPack_of_assemble assembled (complete _ List.mem_cons_self),
        spared _ List.mem_cons_self, ?_⟩
      have elsewhere : twoFiles.target ⟨"r.pbpack"⟩ ≠ .ok ["a"] ∧
          twoFiles.target ⟨"r.h"⟩ ≠ .ok ["a"] := by decide
      rw [kept ["a"]]
      · decide
      · simpa [Draft.path] using elsewhere
    · obtain _ | ⟨third, others⟩ := others
      · cases split
        exact absurd atHeader (by decide : (⟨"r.d"⟩ : Path) ≠ ⟨"r.h"⟩)
      · simp at split

end Build

end ResourcePack
