import ResourcePack.Proofs.Build.Failure
import ResourcePack.Proofs.Build.FirstFailure
import ResourcePack.Proofs.Build.SourceFaults

/-!
# What a build can fail at

Before it writes anything a build can fail at its manifest, at the first of its sources
that does not yield its bytes, and at the limits of a pack. After that only a file that
cannot be written is in its way. Each of these reasons is the fault of one thing, and that
is what is told of the failure.
-/

namespace ResourcePack

open Build (Fault)

namespace Manifest

variable {manifest : Manifest}

/-- A text that is no manifest is not the fault of its file. -/
theorem fault_of_parse {path : Path} {text : String} {cause : Error}
    (failed : parse path text = .error cause) :
    (Build.Error.manifest cause).fault = .configuration := by
  unfold parse parseToml parseJson at failed
  split at failed
  all_goals
    split at failed
    · cases failed
    · cases failed
      rfl

theorem fault_of_validate {cause : Error} (failed : manifest.validate = .error cause) :
    (Build.Error.manifest cause).fault = .configuration := by
  cases validate_eq_error_iff.mp failed with
  | palette => rfl
  | resource _ there _ =>
      obtain ⟨resource, -, defect⟩ := there
      cases defect with
      | unnamed => rfl
      | repeated => rfl
      | input _ _ lacks => cases lacks <;> rfl

theorem Descriptor.Misfit.isConfiguration {descriptor : Descriptor} {cause : Picture.Error}
    (misfit : descriptor.Misfit cause) : cause.isConfiguration = true := by
  cases misfit <;> rfl

theorem LoadDefect.fault {cause : Build.Error} (defect : manifest.LoadDefect cause) :
    cause.fault = .configuration := by
  cases defect with
  | unsound invalid => exact fault_of_validate invalid
  | palette => rfl
  | setting _ _ first => exact if_pos first.here.isConfiguration

end Manifest

namespace Pack

theorem fault_of_assemble {resources : List Bytes} {cause : Error}
    (refused : assemble resources = .error cause) :
    (Build.Error.pack cause).fault = .configuration := by
  obtain rfl | ⟨size, rfl⟩ := assemble_eq_error refused <;> rfl

end Pack

namespace Build

/-- What keeps a build from being planned where `look` tells what is in the files, by what is
at fault. -/
inductive Obstacle (look : Path → Except FileError Bytes) (manifest root : Path)
    (outputs : Outputs) : Fault → Prop
  | unread {reason : FileError} (unread : look manifest = .error reason) :
      Obstacle look manifest root outputs .io
  | notText {content : Bytes} (read : look manifest = .ok content)
      (notText : Utf8.decode? content = none) : Obstacle look manifest root outputs .io
  | unparsed {content : Bytes} {text : String} {cause : Manifest.Error}
      (read : look manifest = .ok content) (decoded : Utf8.decode? content = some text)
      (refused : Manifest.parse manifest text = .error cause) :
      Obstacle look manifest root outputs .configuration
  /-- The manifest is not sound, or its palette or a setting of a picture is none there is. -/
  | defect {written : Manifest} {cause : Error}
      (read : Collection.manifestOf manifest (look manifest) = .ok written)
      (defect : written.LoadDefect cause) : Obstacle look manifest root outputs .configuration
  /-- Of the sources whose bytes are needed this is the first that does not yield them. -/
  | source {collection : Collection} {i : Nat} {entry : Entry} {fault : Fault}
      (loaded : Collection.ofOutcome manifest root (look manifest) = .ok collection)
      (needed : outputs.pack = true ∨ outputs.header = true)
      (first : Outcome.First (fun entry => entry.source.Obstacle look) collection.entries i entry
        fault) : Obstacle look manifest root outputs fault
  /-- There are more resources or more bytes than a pack has room for. -/
  | limits {collection : Collection} {blobs : List Bytes}
      (loaded : Collection.ofOutcome manifest root (look manifest) = .ok collection)
      (asked : outputs.pack = true)
      (yields : List.Forall₂ (fun entry blob =>
        entry.source.ofOutcome .png (look entry.source.path) = .ok blob) collection.entries blobs)
      (past : 512 < blobs.length ∨ 2 ^ 31 - 1 < (blobs.map List.length).sum) :
      Obstacle look manifest root outputs .configuration

section

variable {look : Path → Except FileError Bytes}

/-- Where a pack is asked for, the bytes of the sources are what goes into it. -/
theorem exists_neededFrom_iff {codec : Codec} {outputs : Outputs} {collection : Collection}
    (asked : outputs.pack = true) {blobs : List Bytes} :
    (∃ resources, neededFrom codec look outputs collection = .ok resources ∧
        resources.map Resolved.bytes = blobs) ↔
      List.Forall₂ (fun entry blob =>
        entry.source.ofOutcome codec (look entry.source.path) = .ok blob)
          collection.entries blobs := by
  have made {resources : List Resolved}
      (resolved : neededFrom codec look outputs collection = .ok resources) :
      List.Forall₂ (fun entry blob =>
        entry.source.ofOutcome codec (look entry.source.path) = .ok blob)
          collection.entries (resources.map Resolved.bytes) := by
    rw [neededFrom, asked] at resolved
    rw [List.forall₂_map_right_iff]
    refine (Outcome.forall₂_of_treat resolved).imp ?_
    rintro entry _ ⟨position, blob, yielded, rfl⟩
    exact yielded
  constructor
  · rintro ⟨resources, resolved, rfl⟩
    exact made resolved
  · intro yields
    obtain ⟨resources, resolved⟩ :
        ∃ resources, neededFrom codec look outputs collection = .ok resources := by
      rw [neededFrom, asked]
      refine Outcome.exists_treat_iff.mpr ?_
      intro entry member
      obtain ⟨blob, -, yielded⟩ := Outcome.exists_result yields entry member
      exact ⟨blob, yielded⟩
    refine ⟨resources, resolved, List.right_unique_forall₂' ?_ (made resolved) yields⟩
    intro entry blob other yielded again
    exact Except.ok.inj (yielded.symm.trans again)

/-- The first source with something in its way is the first that fails. -/
theorem first_obstacle_iff {entries : List Entry} {i : Nat} {entry : Entry} {fault : Fault} :
    Outcome.First (fun entry => entry.source.Obstacle look) entries i entry fault ↔
      ∃ cause, Outcome.First (fun entry cause =>
        entry.source.ofOutcome .png (look entry.source.path) = .error cause) entries i entry cause ∧
          cause.fault = fault := by
  constructor
  · rintro ⟨found, obstacle, none⟩
    obtain ⟨cause, failed, rfl⟩ := obstacle.fails
    refine ⟨cause, ⟨found, failed, ?_⟩, rfl⟩
    intro earlier before other failed
    exact none earlier before _ (Source.obstacle_of_ofOutcome failed)
  · rintro ⟨cause, ⟨found, failed, none⟩, rfl⟩
    refine ⟨found, Source.obstacle_of_ofOutcome failed, ?_⟩
    intro earlier before other obstacle
    obtain ⟨cause, failed, -⟩ := obstacle.fails
    exact none earlier before cause failed

end

section Observed

variable {S : Type} [Files (StateM S)] {look : S → Path → Except FileError Bytes}
  {manifest basename root : Path} {outputs : Outputs} {tool : Option Path} {state : S}

theorem Obstacle.plan_fails (observes : Files.Observes look) {fault : Fault}
    (obstacle : Obstacle (look state) manifest root outputs fault) :
    ∃ cause, Files.runOn state (plan .png manifest basename root outputs tool) =
      (.error cause, state) ∧ cause.fault = fault := by
  simp only [runOn_plan observes, Prod.mk.injEq, and_true, planFrom_eq_error_iff]
  cases obstacle with
  | @unread reason unread =>
      refine ⟨.manifest (.file manifest reason),
        .inl (Collection.ofOutcome_eq_error_iff.mpr (.inl ⟨_, ?_, rfl⟩)), rfl⟩
      rw [unread]
      rfl
  | notText read notText =>
      refine ⟨.manifest (.file manifest .notText),
        .inl (Collection.ofOutcome_eq_error_iff.mpr (.inl ⟨_, ?_, rfl⟩)), rfl⟩
      simp only [read, Collection.manifestOf, notText]
  | unparsed read decoded refused =>
      refine ⟨_, .inl (Collection.ofOutcome_eq_error_iff.mpr (.inl ⟨_, ?_, rfl⟩)),
        Manifest.fault_of_parse refused⟩
      simp only [read, Collection.manifestOf, decoded, refused]
  | defect read defect =>
      exact ⟨_, .inl (Collection.ofOutcome_eq_error_iff.mpr (.inr ⟨_, read, defect⟩)),
        defect.fault⟩
  | source loaded wanted first =>
      obtain ⟨inner, ended, rfl⟩ := first_obstacle_iff.mp first
      exact ⟨_, .inr ⟨_, loaded, .inl (neededFrom_eq_error_iff.mpr
        ⟨wanted, _, _, _, ended, rfl⟩)⟩, rfl⟩
  | limits loaded asked yields past =>
      obtain ⟨resources, resolved, rfl⟩ := (exists_neededFrom_iff asked).mpr yields
      obtain ⟨inner, refused⟩ := Pack.exists_assemble_error_iff.mpr past
      refine ⟨_, .inr ⟨_, loaded, .inr ⟨resources, resolved,
        draftPack_eq_error_iff.mpr ⟨asked, inner, refused, rfl⟩⟩⟩, Pack.fault_of_assemble refused⟩

theorem obstacle_of_plan (observes : Files.Observes look) {cause : Error}
    (failed : Files.runOn state (plan .png manifest basename root outputs tool) =
      (.error cause, state)) :
    Obstacle (look state) manifest root outputs cause.fault := by
  rw [runOn_plan observes, Prod.mk.injEq] at failed
  obtain unloaded | ⟨collection, loaded, failed⟩ := planFrom_eq_error_iff.mp failed.1
  · obtain ⟨inner, refused, rfl⟩ | ⟨written, read, defect⟩ :=
      Collection.ofOutcome_eq_error_iff.mp unloaded
    · unfold Collection.manifestOf at refused
      split at refused
      · rename_i reason unread
        cases refused
        exact .unread unread
      · rename_i content read
        split at refused
        · rename_i notText
          cases refused
          exact .notText read notText
        · rename_i text decoded
          rw [Manifest.fault_of_parse refused]
          exact .unparsed read decoded refused
    · rw [defect.fault]
      exact .defect read defect
  · obtain unresolved | ⟨resources, resolved, unpacked⟩ := failed
    · obtain ⟨wanted, i, entry, inner, first, rfl⟩ := neededFrom_eq_error_iff.mp unresolved
      exact .source loaded wanted (first_obstacle_iff.mpr ⟨inner, first, rfl⟩)
    · obtain ⟨asked, inner, refused, rfl⟩ := draftPack_eq_error_iff.mp unpacked
      rw [Pack.fault_of_assemble refused]
      exact .limits loaded asked ((exists_neededFrom_iff asked).mp ⟨resources, resolved, rfl⟩)
        (Pack.exists_assemble_error_iff.mp ⟨inner, refused⟩)

/-- What keeps a build from succeeding in a state, by what is at fault: it cannot be planned, or
one of the planned files cannot be written after those before it. -/
inductive Setback (look : S → Path → Except FileError Bytes) (state : S)
    (manifest basename root : Path) (outputs : Outputs) (tool : Option Path) : Fault → Prop
  | plan {fault : Fault} (obstacle : Obstacle (look state) manifest root outputs fault) :
      Setback look state manifest basename root outputs tool fault
  | write {made : Plan} {written skipped : List Draft} {last : Draft} {reports : List Written}
      {middle : S} {reason : FileError}
      (planned : Files.runOn state (plan .png manifest basename root outputs tool) =
        (.ok made, state))
      (order : made.drafts = written ++ last :: skipped)
      (wrote : Files.runOn state (writeDrafts written) = (.ok reports, middle))
      (refused : ((Files.write last.path last.content : StateM S _) middle).1 = .error reason) :
      Setback look state manifest basename root outputs tool .io

theorem runOn_writeDrafts_of_refused {drafts written skipped : List Draft} {last : Draft}
    {reports : List Written} {middle : S} {reason : FileError}
    (order : drafts = written ++ last :: skipped)
    (wrote : Files.runOn state (writeDrafts written) = (.ok reports, middle))
    (refused : ((Files.write last.path last.content : StateM S _) middle).1 = .error reason) :
    (Files.runOn state (writeDrafts drafts)).1 = .error (last.unwritable reason) := by
  subst order
  have failed : (Files.runOn middle (writeDraft last)).1 = .error (last.unwritable reason) := by
    rw [runOn_writeDraft, refused]
    rfl
  obtain ⟨done, stopped⟩ := Files.exists_of_outcome failed
  simp only [writeDrafts_append, writeDrafts, Files.runOn_bind, wrote, stopped]

theorem Setback.run_fails (observes : Files.Observes look) {fault : Fault}
    (setback : Setback look state manifest basename root outputs tool fault) :
    ∃ cause, (Files.runOn state (run .png manifest basename root outputs tool)).1 =
      .error cause ∧ cause.fault = fault := by
  rw [run_eq_plan, Files.runOn_bind]
  cases setback with
  | plan obstacle =>
      obtain ⟨cause, unplanned, rfl⟩ := obstacle.plan_fails observes
      rw [unplanned]
      exact ⟨cause, rfl, rfl⟩
  | write planned order wrote refused =>
      have failed := runOn_writeDrafts_of_refused order wrote refused
      simp only [planned, runOn_carryOut, failed]
      exact ⟨_, rfl, Draft.fault_unwritable _ _⟩

theorem setback_of_run (observes : Files.Observes look) {cause : Error}
    (failed : (Files.runOn state (run .png manifest basename root outputs tool)).1 =
      .error cause) :
    Setback look state manifest basename root outputs tool cause.fault := by
  obtain ⟨done, built⟩ := Files.exists_of_outcome failed
  obtain ⟨other, unplanned, ⟨⟩, -⟩ | ⟨made, ending, planned, wrote, ended⟩ :=
    runOn_run_cases observes built
  · exact .plan (obstacle_of_plan observes unplanned)
  · obtain rfl := Outcome.map_eq_error.mp ended.symm
    obtain ⟨written, last, skipped, reports, middle, order, before, stopped⟩ :=
      runOn_writeDrafts_eq_error wrote
    obtain ⟨reason, refused, rfl⟩ := runOn_writeDraft_eq_error stopped
    rw [Draft.fault_unwritable]
    exact .write planned order before refused

end Observed

end Build

end ResourcePack
