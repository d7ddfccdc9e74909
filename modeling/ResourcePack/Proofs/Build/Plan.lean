import ResourcePack.Proofs.Build.Dependencies

/-!
# Building by plan

A build finds out all that it is going to write before it writes anything. `plan` is that
first part, and `carryOut` writes what it planned, file after file. In any monad with files
a build is the one followed by the other, so what is true of plans and of writing a list of
files is true of builds. Where reads go by what is to be seen in the files, the plan is a
function of that, `planFrom`.
-/

namespace ResourcePack

namespace Build

/-- A file that is to be written, with all that goes into it. -/
inductive Draft where
  | pack (path : Path) (image : Pack.Image)
  | text (path : Path) (lines : String)
  deriving DecidableEq, Repr

namespace Draft

def path : Draft → Path
  | .pack path _ => path
  | .text path _ => path

def content : Draft → Bytes
  | .pack _ image => image.toBytes
  | .text _ lines => Utf8.encode lines

/-- The failure when the file cannot be written. -/
def unwritable (draft : Draft) (cause : FileError) : Error :=
  match draft with
  | .pack path _ => .pack (.file path cause)
  | .text path _ => .write path cause

/-- What is reported when the file is written. -/
def written : Draft → Written
  | .pack path image => { path, size := some image.toBytes.length }
  | .text path _ => { path, size := none }

/-- It is a file that is at fault. -/
@[simp] theorem fault_unwritable (draft : Draft) (cause : FileError) :
    (draft.unwritable cause).fault = .io := by
  cases draft <;> rfl

end Draft

/-- What a build works with and what it is going to write, in this order. -/
structure Plan where
  resources : List Resolved
  drafts : List Draft
  deriving DecidableEq, Repr

/-- The pack, laid out, if it is asked for. -/
def draftPack (outputs : Outputs) (basename : Path) (resources : List Resolved) :
    Except Error (List Draft) :=
  if outputs.pack then
    ((Pack.assemble (resources.map Resolved.bytes)).mapError .pack).map fun image =>
      [.pack (basename.append ".pbpack") image]
  else .ok []

/-- A text, if it is asked for. -/
def draftText (asked : Bool) (path : Path) (lines : String) : List Draft :=
  if asked then [.text path lines] else []

/-- What follows a settled outcome follows at once, or not at all. -/
theorem mk_pure_bind {m : Type → Type} [Monad m] [LawfulMonad m] {α β : Type}
    (outcome : Except Error α) (next : α → ExceptT Error m β) :
    ExceptT.mk (pure outcome) >>= next = match outcome with
      | .ok a => next a
      | .error cause => ExceptT.mk (pure (.error cause)) := by
  apply ExceptT.ext
  cases outcome <;> simp [ExceptT.run_bind]

section Steps

variable {m : Type → Type} [Monad m] [Files m]

/-- Find out what is to be written. -/
def plan (codec : Codec) (manifest basename root : Path) (outputs : Outputs)
    (tool : Option Path) : ExceptT Error m Plan := do
  let collection ← Collection.load manifest root
  let resources ← needed codec outputs collection
  let packs ← ExceptT.mk (pure (draftPack outputs basename resources))
  let header := draftText outputs.header (basename.append ".h") (SymbolHeader.render resources)
  let rules := draftText outputs.makeRules (basename.append ".d")
    (rulesOf manifest basename tool collection).render
  return { resources, drafts := packs ++ header ++ rules }

/-- Write one file. -/
def writeDraft (draft : Draft) : ExceptT Error m Written :=
  ExceptT.mk do
    match ← Files.write draft.path draft.content with
    | .ok () => return .ok draft.written
    | .error cause => return .error (draft.unwritable cause)

/-- Write files in order, up to the first one that cannot be written. -/
def writeDrafts : List Draft → ExceptT Error m (List Written)
  | [] => return []
  | draft :: rest => do
    let first ← writeDraft draft
    return first :: (← writeDrafts rest)

/-- Write what is planned. -/
def carryOut (plan : Plan) : ExceptT Error m Report := do
  return { resources := plan.resources, written := ← writeDrafts plan.drafts }

variable [LawfulMonad m]

theorem writeDrafts_append (before after : List Draft) :
    (writeDrafts (before ++ after) : ExceptT Error m (List Written)) =
      do return (← writeDrafts before) ++ (← writeDrafts after) := by
  induction before with
  | nil => simp [writeDrafts]
  | cons draft rest ih => simp [writeDrafts, ih]

theorem optionally_writePack (outputs : Outputs) (basename : Path) (resources : List Resolved) :
    (optionally outputs.pack (writePack (basename.append ".pbpack") resources) :
      ExceptT Error m (List Written)) =
        ExceptT.mk (pure (draftPack outputs basename resources)) >>= writeDrafts := by
  unfold optionally draftPack
  rw [mk_pure_bind]
  split
  · unfold writePack
    cases Pack.assemble (resources.map Resolved.bytes) with
    | error cause => exact mk_pure_bind _ _
    | ok image =>
      simp only [Except.mapError, Except.map, writeDrafts, pure_bind]
      rfl
  · rfl

theorem optionally_writeText (asked : Bool) (path : Path) (lines : String) :
    (optionally asked (writeText path lines) : ExceptT Error m (List Written)) =
      writeDrafts (draftText asked path lines) := by
  have one : (writeText path lines : ExceptT Error m Written) = writeDraft (.text path lines) := rfl
  unfold optionally draftText
  split
  · simp only [one, writeDrafts, pure_bind]
  · rfl

/-- Nothing is written before everything is known. -/
theorem run_eq_plan (codec : Codec) (manifest basename root : Path) (outputs : Outputs)
    (tool : Option Path) :
    (run codec manifest basename root outputs tool : ExceptT Error m Report) =
      plan codec manifest basename root outputs tool >>= carryOut := by
  rw [run_eq_steps]
  unfold plan carryOut
  simp only [bind_assoc]
  congr 1
  funext collection
  unfold ofCollection writeHeader writeMakeRules
  simp only [bind_assoc, pure_bind, optionally_writePack, optionally_writeText, writeDrafts_append,
    rulesOf]

end Steps

/-- The files that are asked for, in the order in which they are written. -/
def Outputs.paths (outputs : Outputs) (basename : Path) : List Path :=
  (if outputs.pack then [basename.append ".pbpack"] else []) ++
    (if outputs.header then [basename.append ".h"] else []) ++
    if outputs.makeRules then [basename.append ".d"] else []

/-- Their names differ in the last character. -/
theorem Outputs.pairwise_paths (outputs : Outputs) (basename : Path) :
    (outputs.paths basename).Pairwise Path.EndApart := by
  have packHeader : (basename.append ".pbpack").EndApart (basename.append ".h") :=
    ⟨'k', 'h', pack_endsIn _, header_endsIn _, by decide⟩
  have packRules : (basename.append ".pbpack").EndApart (basename.append ".d") :=
    ⟨'k', 'd', pack_endsIn _, makeRules_endsIn _, by decide⟩
  have headerRules : (basename.append ".h").EndApart (basename.append ".d") :=
    ⟨'h', 'd', header_endsIn _, makeRules_endsIn _, by decide⟩
  obtain ⟨pack, header, makeRules⟩ := outputs
  cases pack <;> cases header <;> cases makeRules <;>
    simp [Outputs.paths, packHeader, packRules, headerRules]

/-- The resources that are needed, made of what `look` tells of the files. -/
def neededFrom (codec : Codec) (look : Path → Except FileError Bytes) (outputs : Outputs)
    (collection : Collection) : Except Error (List Resolved) :=
  if outputs.pack || outputs.header then
    Outcome.treat (fun entry => entry.source.ofOutcome codec (look entry.source.path))
      (fun position entry => .resource (position + 1) entry.name) Collection.resolved 0
      collection.entries
  else .ok []

/-- The plan, made of what `look` tells of the files. -/
def planFrom (codec : Codec) (look : Path → Except FileError Bytes)
    (manifest basename root : Path) (outputs : Outputs) (tool : Option Path) :
    Except Error Plan := do
  let collection ← Collection.ofOutcome manifest root (look manifest)
  let resources ← neededFrom codec look outputs collection
  let packs ← draftPack outputs basename resources
  let header := draftText outputs.header (basename.append ".h") (SymbolHeader.render resources)
  let rules := draftText outputs.makeRules (basename.append ".d")
    (rulesOf manifest basename tool collection).render
  return { resources, drafts := packs ++ header ++ rules }

section

variable {codec : Codec} {look : Path → Except FileError Bytes} {manifest basename root : Path}
  {outputs : Outputs} {tool : Option Path} {collection : Collection}

theorem neededFrom_eq_error_iff {cause : Error} :
    neededFrom codec look outputs collection = .error cause ↔
      (outputs.pack = true ∨ outputs.header = true) ∧ ∃ i entry inner,
        Outcome.First (fun entry inner =>
          entry.source.ofOutcome codec (look entry.source.path) = .error inner)
            collection.entries i entry inner ∧
        cause = .resource (i + 1) entry.name inner := by
  unfold neededFrom
  split
  · rename_i wanted
    rw [Bool.or_eq_true] at wanted
    simp only [wanted, true_and, Outcome.treat_eq_error_iff, Nat.zero_add]
  · rename_i unwanted
    rw [Bool.or_eq_true] at unwanted
    exact iff_of_false nofun fun failed => unwanted failed.1

theorem draftPack_eq_error_iff {resources : List Resolved} {cause : Error} :
    draftPack outputs basename resources = .error cause ↔ outputs.pack = true ∧ ∃ inner,
      Pack.assemble (resources.map Resolved.bytes) = .error inner ∧ cause = .pack inner := by
  unfold draftPack
  split
  · rename_i asked
    rw [Outcome.map_eq_error, Outcome.mapError_eq_error]
    simp only [asked, true_and, eq_comm]
  · rename_i other
    exact iff_of_false nofun fun failed => other failed.1

theorem planFrom_eq_error_iff {cause : Error} :
    planFrom codec look manifest basename root outputs tool = .error cause ↔
      Collection.ofOutcome manifest root (look manifest) = .error cause ∨
      ∃ collection, Collection.ofOutcome manifest root (look manifest) = .ok collection ∧
        (neededFrom codec look outputs collection = .error cause ∨
          ∃ resources, neededFrom codec look outputs collection = .ok resources ∧
            draftPack outputs basename resources = .error cause) := by
  unfold planFrom
  simp only [Outcome.bind_eq_error]
  simp [pure, Except.pure]

end

section Observed

variable {S : Type} [Files (StateM S)] {look : S → Path → Except FileError Bytes}
  {codec : Codec} {manifest basename root : Path} {outputs : Outputs} {tool : Option Path}
  {state state' done : S}

theorem runOn_needed (observes : Files.Observes look) (codec : Codec) (outputs : Outputs)
    (collection : Collection) (state : S) :
    Files.runOn state (needed codec outputs collection) =
      (neededFrom codec (look state) outputs collection, state) := by
  unfold needed neededFrom
  split
  · exact Collection.runOn_resolveFrom observes codec 0 collection.entries state
  · rfl

/-- Planning looks at files and changes nothing. -/
theorem runOn_plan (observes : Files.Observes look) (codec : Codec)
    (manifest basename root : Path) (outputs : Outputs) (tool : Option Path) (state : S) :
    Files.runOn state (plan codec manifest basename root outputs tool) =
      (planFrom codec (look state) manifest basename root outputs tool, state) := by
  unfold plan planFrom
  simp only [Files.runOn_bind, runOn_load observes, runOn_needed observes, Files.runOn_settled]
  simp only [bind, Except.bind]
  cases Collection.ofOutcome manifest root (look state manifest) with
  | error cause => rfl
  | ok collection =>
      dsimp only
      cases neededFrom codec (look state) outputs collection with
      | error cause => rfl
      | ok resources =>
          dsimp only
          cases draftPack outputs basename resources <;> rfl

/-- Planning changes nothing. -/
theorem runOn_plan_state (observes : Files.Observes look) {outcome : Except Error Plan}
    (ran : Files.runOn state (plan codec manifest basename root outputs tool) = (outcome, done)) :
    done = state := by
  rw [runOn_plan observes, Prod.mk.injEq] at ran
  exact ran.2.symm

/-- What a plan is made of. -/
theorem runOn_plan_eq_ok (observes : Files.Observes look) {made : Plan}
    (planned : Files.runOn state (plan codec manifest basename root outputs tool) =
      (.ok made, done)) :
    ∃ collection packs,
      Collection.ofOutcome manifest root (look state manifest) = .ok collection ∧
      Files.runOn state (needed codec outputs collection) = (.ok made.resources, state) ∧
      draftPack outputs basename made.resources = .ok packs ∧
      made.drafts = packs ++
        draftText outputs.header (basename.append ".h") (SymbolHeader.render made.resources) ++
        draftText outputs.makeRules (basename.append ".d")
          (rulesOf manifest basename tool collection).render := by
  rw [runOn_plan observes, Prod.mk.injEq] at planned
  obtain ⟨collection, loaded, made⟩ := Outcome.bind_eq_ok.mp planned.1
  obtain ⟨resources, resolved, made⟩ := Outcome.bind_eq_ok.mp made
  obtain ⟨packs, drafted, made⟩ := Outcome.bind_eq_ok.mp made
  cases made
  exact ⟨collection, packs, loaded, by rw [runOn_needed observes, resolved], drafted, rfl⟩

theorem map_path_drafts (observes : Files.Observes look) {made : Plan}
    (planned : Files.runOn state (plan codec manifest basename root outputs tool) =
      (.ok made, done)) :
    made.drafts.map Draft.path = outputs.paths basename := by
  obtain ⟨collection, packs, -, -, drafted, written⟩ := runOn_plan_eq_ok observes planned
  have packPaths : packs.map Draft.path =
      if outputs.pack then [basename.append ".pbpack"] else [] := by
    unfold draftPack at drafted
    split at drafted
    · rename_i asked
      obtain ⟨image, -, rfl⟩ := Outcome.map_eq_ok.mp drafted
      rw [if_pos asked]
      rfl
    · rename_i notAsked
      cases drafted
      rw [if_neg notAsked]
      rfl
  have textPaths (asked : Bool) (path : Path) (lines : String) :
      (draftText asked path lines).map Draft.path = if asked then [path] else [] := by
    cases asked <;> rfl
  rw [written, List.map_append, List.map_append, packPaths, textPaths, textPaths]
  rfl

/-- So no draft of a plan is written where another one goes. -/
theorem pairwise_drafts (observes : Files.Observes look) {made : Plan}
    (planned : Files.runOn state (plan codec manifest basename root outputs tool) =
      (.ok made, done)) :
    made.drafts.Pairwise fun draft later => draft.path.EndApart later.path := by
  rw [← List.pairwise_map (R := Path.EndApart), map_path_drafts observes planned]
  exact outputs.pairwise_paths basename

theorem runOn_carryOut (state : S) (made : Plan) :
    Files.runOn state (carryOut made) =
      ((Files.runOn state (writeDrafts made.drafts)).1.map fun written =>
        { resources := made.resources, written },
      (Files.runOn state (writeDrafts made.drafts)).2) := by
  rw [carryOut, Files.runOn_bind]
  cases Files.runOn state (writeDrafts made.drafts) with
  | mk outcome done => cases outcome <;> rfl

/-- Writing a draft is one write, and its outcome is reported. -/
theorem runOn_writeDraft (state : S) (draft : Draft) :
    Files.runOn state (writeDraft draft) =
      ((((Files.write draft.path draft.content : StateM S _) state).1.map
        fun _ => draft.written).mapError draft.unwritable,
      ((Files.write draft.path draft.content : StateM S _) state).2) := by
  unfold Files.runOn writeDraft
  simp only [ExceptT.mk, ExceptT.run, StateT.run, bind, StateT.bind]
  cases (Files.write draft.path draft.content : StateM S _) state with
  | mk outcome done => cases outcome <;> rfl

theorem runOn_writeDraft_eq_error {draft : Draft} {cause : Error}
    (ran : Files.runOn state (writeDraft draft) = (.error cause, done)) :
    ∃ reason, ((Files.write draft.path draft.content : StateM S _) state).1 = .error reason ∧
      cause = draft.unwritable reason := by
  rw [runOn_writeDraft, Prod.mk.injEq, Outcome.mapError_eq_error] at ran
  obtain ⟨⟨reason, refused, rfl⟩, -⟩ := ran
  exact ⟨reason, Outcome.map_eq_error.mp refused, rfl⟩

/-- The first draft is one write, and the others follow if it succeeds. -/
theorem runOn_writeDrafts_cons (state : S) (draft : Draft) (rest : List Draft) :
    Files.runOn state (writeDrafts (draft :: rest)) =
      match (Files.write draft.path draft.content : StateM S _) state with
      | (.error cause, middle) => (.error (draft.unwritable cause), middle)
      | (.ok (), middle) => ((Files.runOn middle (writeDrafts rest)).1.map (draft.written :: ·),
          (Files.runOn middle (writeDrafts rest)).2) := by
  rw [writeDrafts, Files.runOn_bind, runOn_writeDraft]
  cases (Files.write draft.path draft.content : StateM S _) state with
  | mk outcome middle =>
      cases outcome with
      | error cause => rfl
      | ok =>
          simp only [Except.map, Except.mapError, Files.runOn_bind]
          cases Files.runOn middle (writeDrafts rest) with
          | mk ending done => cases ending <;> rfl

/-- Writing fails at one draft, after those before it have been written. -/
theorem runOn_writeDrafts_eq_error {drafts : List Draft} {cause : Error}
    (ran : Files.runOn state (writeDrafts drafts) = (.error cause, done)) :
    ∃ written last skipped reports middle, drafts = written ++ last :: skipped ∧
      Files.runOn state (writeDrafts written) = (.ok reports, middle) ∧
      Files.runOn middle (writeDraft last) = (.error cause, done) := by
  induction drafts generalizing state with
  | nil => cases ran
  | cons draft rest ih =>
      obtain first | ⟨report, after, first, ran⟩ := Files.runOn_bind_eq_error.mp ran
      · exact ⟨[], draft, rest, [], state, rfl, rfl, first⟩
      · obtain later | ⟨reports, _, -, last⟩ := Files.runOn_bind_eq_error.mp ran
        · obtain ⟨written, last, skipped, reports, middle, rfl, wrote, failed⟩ := ih later
          refine ⟨draft :: written, last, skipped, report :: reports, middle, rfl, ?_, failed⟩
          simp only [writeDrafts, Files.runOn_bind, first, wrote]
          rfl
        · cases last

/-- All that a build can do: it fails to plan and changes nothing, or it writes its drafts and
ends as that does. -/
theorem runOn_run_cases (observes : Files.Observes look) {outcome : Except Error Report}
    (built : Files.runOn state (run codec manifest basename root outputs tool) =
      (outcome, done)) :
    (∃ cause, Files.runOn state (plan codec manifest basename root outputs tool) =
        (.error cause, state) ∧ outcome = .error cause ∧ done = state) ∨
      ∃ made ending, Files.runOn state (plan codec manifest basename root outputs tool) =
          (.ok made, state) ∧
        Files.runOn state (writeDrafts made.drafts) = (ending, done) ∧
        outcome = ending.map fun written => { resources := made.resources, written } := by
  rw [run_eq_plan, Files.runOn_bind] at built
  cases planned : Files.runOn state (plan codec manifest basename root outputs tool) with
  | mk planOutcome middle =>
      obtain rfl := runOn_plan_state observes planned
      rw [planned] at built
      cases planOutcome with
      | error cause =>
          cases built
          exact .inl ⟨cause, rfl, rfl, rfl⟩
      | ok made =>
          simp only [runOn_carryOut, Prod.mk.injEq] at built
          obtain ⟨rfl, rfl⟩ := built
          exact .inr ⟨made, _, rfl, rfl, rfl⟩

end Observed

end Build

end ResourcePack
