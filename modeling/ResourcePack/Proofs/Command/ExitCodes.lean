import ResourcePack.Command.Run
import ResourcePack.Proofs.Build.Faults

/-!
# What the exit code of a build tells

A build that fails ends with one of three exit codes. Which one depends on the root of the
cause, not on the resources it is found in, and so on nothing but what is in the way of the
build: 3 stands for an index that a pack does not have, 2 for the manifest, its settings
and the limits of a pack, and 4 for files.
-/

namespace ResourcePack

namespace Build.Error

/-- The causes that are the fault of the manifest, of a setting or of too many resources. -/
inductive OfConfiguration : Error → Prop
  | manifest {cause : Manifest.Error} (read : ∀ path reason, cause ≠ .file path reason) :
      OfConfiguration (.manifest cause)
  | family {name : String} : OfConfiguration (.picture (.unknownFamily name))
  | method {name : String} : OfConfiguration (.picture (.unknownMethod name))
  | depth {bits : UInt8} : OfConfiguration (.picture (.invalidDepth bits))
  | forced {forced required : Nat} : OfConfiguration (.picture (.depthTooLow forced required))
  | tableFull {count capacity : Nat} : OfConfiguration (.pack (.tableFull count capacity))
  | tooLarge {size : Nat} : OfConfiguration (.pack (.tooLarge size))

/-- Only a missing index has this fault, in however many resources it is found. -/
theorem fault_eq_notFound_iff {cause : Error} :
    cause.fault = .notFound ↔ ∃ pack index, cause.root = .pack (.notFound pack index) := by
  induction cause with
  | resource index name cause ih => exact ih
  | manifest cause => cases cause <;> simp [fault, root]
  | pack cause => cases cause <;> simp [fault, root]
  | picture cause => cases cause <;> simp [fault, root, Picture.Error.isConfiguration]
  | read => simp [fault, root]
  | write => simp [fault, root]

theorem fault_eq_configuration_iff {cause : Error} :
    cause.fault = .configuration ↔ cause.root.OfConfiguration := by
  induction cause with
  | resource index name cause ih => exact ih
  | manifest cause =>
      cases cause with
      | file path reason =>
          refine iff_of_false nofun ?_
          rintro ⟨read⟩
          exact read path reason rfl
      | _ => exact iff_of_true rfl (.manifest nofun)
  | pack cause =>
      cases cause with
      | tableFull => exact iff_of_true rfl .tableFull
      | tooLarge => exact iff_of_true rfl .tooLarge
      | _ => exact iff_of_false nofun nofun
  | picture cause =>
      cases cause with
      | unknownFamily => exact iff_of_true rfl .family
      | unknownMethod => exact iff_of_true rfl .method
      | invalidDepth => exact iff_of_true rfl .depth
      | depthTooLow => exact iff_of_true rfl .forced
      | _ => exact iff_of_false nofun nofun
  | read => exact iff_of_false nofun nofun
  | write => exact iff_of_false nofun nofun

end Build.Error

namespace Command

open Build (Fault)

variable {S : Type} [Files (StateM S)] {look : S → Path → Except FileError Bytes}
  {tool : Option Path} {arguments : List String} {json : Bool} {manifest basename root : Path}
  {outputs : Build.Outputs} {state : S}

/-- The command builds, and reports what came of it. -/
theorem runOn_run_build {outcome : Except Build.Error Build.Report} {done : S}
    (built : Files.runOn state (Build.run .png manifest basename root outputs tool) =
      (outcome, done)) :
    Files.runOn state (run tool json (.build manifest basename root outputs)) =
      ((outcome.mapError Failure.ofError).map (buildText json), done) := by
  unfold run
  rw [Files.runOn_bind, Files.runOn_mapError, built]
  cases outcome <;> rfl

theorem execute_build
    (asked : Request.ofArguments? arguments =
      some (.run json (.build manifest basename root outputs))) :
    ((execute tool arguments : StateM S Outcome) state).1 =
      match (Files.runOn state (Build.run .png manifest basename root outputs tool)).1 with
      | .ok report => .success (buildText json report)
      | .error cause => .failure (.ofError cause) := by
  cases built : Files.runOn state (Build.run .png manifest basename root outputs tool) with
  | mk outcome done =>
      have ran : (run tool json (.build manifest basename root outputs) :
          ExceptT Failure (StateM S) String).run state =
            ((outcome.mapError Failure.ofError).map (buildText json), done) :=
        runOn_run_build built
      simp only [execute, asked, bind, StateT.bind, ran]
      cases outcome <;> rfl

theorem exitCode_injective {fault other : Fault} (same : exitCode fault = exitCode other) :
    fault = other := by
  cases fault <;> cases other <;> first | rfl | cases same

theorem exitCode_mem (fault : Fault) : exitCode fault ∈ [2, 3, 4] := by
  cases fault <;> decide

theorem execute_build_eq_failure_iff
    (asked : Request.ofArguments? arguments =
      some (.run json (.build manifest basename root outputs))) {failure : Failure} :
    ((execute tool arguments : StateM S Outcome) state).1 = .failure failure ↔
      ∃ cause, (Files.runOn state (Build.run .png manifest basename root outputs tool)).1 =
        .error cause ∧ failure = .ofError cause := by
  rw [execute_build asked]
  cases (Files.runOn state (Build.run .png manifest basename root outputs tool)).1 with
  | ok report => simp
  | error cause => simp [eq_comm]

/-- A build ends with the exit code of a fault exactly if that is at fault. -/
theorem fails_with_iff (observes : Files.Observes look)
    (asked : Request.ofArguments? arguments =
      some (.run json (.build manifest basename root outputs))) (fault : Fault) :
    (∃ message, ((execute tool arguments : StateM S Outcome) state).1 =
        .failure ⟨exitCode fault, message⟩) ↔
      Build.Setback look state manifest basename root outputs tool fault := by
  simp only [execute_build_eq_failure_iff asked]
  constructor
  · rintro ⟨message, cause, failed, same⟩
    obtain rfl := exitCode_injective (congrArg Failure.code same)
    exact Build.setback_of_run observes failed
  · intro setback
    obtain ⟨cause, failed, rfl⟩ := setback.run_fails observes
    exact ⟨cause.message, cause, failed, rfl⟩

/-- Exit codes tell the cause, as they do of every failure, however many resources it is
found in. A build ends with 3 exactly if a pack that opened has not got an index, with 2
exactly if the manifest, a setting, a forced depth or the limits of a pack are at fault, and
with 4 exactly if a file is. It never fails with another code. -/
theorem exit_code_tells_cause (observes : Files.Observes look)
    (asked : Request.ofArguments? arguments =
      some (.run json (.build manifest basename root outputs))) (state : S) :
    (∀ cause : Build.Error,
      ((Failure.ofError cause).code = 3 ↔
        ∃ pack index, cause.root = .pack (.notFound pack index)) ∧
      ((Failure.ofError cause).code = 2 ↔ cause.root.OfConfiguration) ∧
      (Failure.ofError cause).code ∈ [2, 3, 4]) ∧
    let ending := ((execute tool arguments : StateM S Outcome) state).1
    ending ≠ .misuse ∧
    (∀ failure, ending = .failure failure →
      failure.code ∈ [2, 3, 4] ∧
        ∃ cause, (Files.runOn state (Build.run .png manifest basename root outputs tool)).1 =
          .error cause ∧ failure = .ofError cause) ∧
    ((∃ message, ending = .failure ⟨3, message⟩) ↔
      Build.Setback look state manifest basename root outputs tool .notFound) ∧
    ((∃ message, ending = .failure ⟨2, message⟩) ↔
      Build.Setback look state manifest basename root outputs tool .configuration) ∧
    ((∃ message, ending = .failure ⟨4, message⟩) ↔
      Build.Setback look state manifest basename root outputs tool .io) := by
  constructor
  · intro cause
    refine ⟨?_, ?_, exitCode_mem cause.fault⟩
    · rw [← Build.Error.fault_eq_notFound_iff]
      exact ⟨fun code => exitCode_injective code, fun fault => congrArg exitCode fault⟩
    · rw [← Build.Error.fault_eq_configuration_iff]
      exact ⟨fun code => exitCode_injective code, fun fault => congrArg exitCode fault⟩
  · refine ⟨?_, ?_, fails_with_iff observes asked .notFound,
      fails_with_iff observes asked .configuration, fails_with_iff observes asked .io⟩
    · rw [execute_build asked]
      split <;> exact nofun
    · intro failure ended
      obtain ⟨cause, failed, rfl⟩ := (execute_build_eq_failure_iff asked).mp ended
      exact ⟨exitCode_mem cause.fault, cause, failed, rfl⟩

/-- A manifest that takes a resource from a pack in which there are none. -/
def emptyPack : FileSystem where
  nodes := [
    (["m"], .file (Utf8.encode ("\x7b\"references\":\x7b\"p\":\"p\"\x7d," ++
      "\"palette\":\"pebble64\",\"resources\":[\x7b\"name\":\"A\",\"input\":" ++
      "\x7b\"type\":\"resource\",\"ref\":\"p\",\"id\":7\x7d\x7d]\x7d"))),
    (["p"], .file (List.replicate 8 0))]
  current := []

/-- The index is missing as long as the pack is there, and then the pack itself is. -/
theorem emptyPack_lacks_index :
    (∃ message, ((execute none ["build", "m", "r"] : StateM FileSystem Outcome) emptyPack).1 =
        .failure ⟨3, message⟩) ∧
      ∃ message, ((execute none ["build", "m", "r"] : StateM FileSystem Outcome)
        (emptyPack.erase ["p"])).1 = .failure ⟨4, message⟩ := by
  have asked : Request.ofArguments? ["build", "m", "r"] =
      some (.run false (.build ⟨"m"⟩ ⟨"r"⟩ ⟨"."⟩ ⟨true, true, true⟩)) := by
    decide
  have loaded : Collection.ofOutcome ⟨"m"⟩ ⟨"."⟩ (emptyPack.read ⟨"m"⟩) =
      .ok ⟨⟨"m"⟩, .pebble64, [⟨"A", .extract ⟨"./p"⟩ 7⟩]⟩ := by
    have there : emptyPack.read ⟨"m"⟩ = .ok (Utf8.encode _) := rfl
    rw [there, Collection.ofOutcome_encode]
    decide +kernel
  have first {look : Path → Except FileError Bytes} {fault : Fault}
      (obstacle : (Source.extract ⟨"./p"⟩ 7).Obstacle look fault) :
      Outcome.First (fun entry : Entry => entry.source.Obstacle look)
        [⟨"A", .extract ⟨"./p"⟩ 7⟩] 0 ⟨"A", .extract ⟨"./p"⟩ 7⟩ fault :=
    ⟨rfl, obstacle, nofun⟩
  constructor
  · obtain ⟨-, -, -, absent, -⟩ := exit_code_tells_cause FileSystem.observes asked emptyPack
    refine absent.mpr (.plan (.source loaded (.inl rfl) (first ?_)))
    obtain ⟨archive, opened, none⟩ : ∃ archive,
        Pack.Archive.ofBytes ⟨"./p"⟩ (List.replicate 8 0) = .ok archive ∧ archive.records = [] :=
      ⟨_, rfl, rfl⟩
    refine .absent (by decide) opened ?_
    rw [none]
    exact nofun
  · obtain ⟨-, -, -, -, -, missing⟩ :=
      exit_code_tells_cause FileSystem.observes asked (emptyPack.erase ["p"])
    have unread : (emptyPack.erase ["p"]).read ⟨"./p"⟩ = .error .notFound := by decide
    have kept : emptyPack.read ⟨"m"⟩ = (emptyPack.erase ["p"]).read ⟨"m"⟩ := rfl
    rw [kept] at loaded
    exact missing.mpr (.plan (.source loaded (.inl rfl) (first (.unread unread))))

end Command

end ResourcePack
