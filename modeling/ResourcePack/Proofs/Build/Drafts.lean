import ResourcePack.Proofs.Build.Plan
import ResourcePack.Proofs.Files.Disk

/-!
# Writing drafts to a disk

Drafts are written in order, up to the first one that fails, whatever it is that fails: the
path leads nowhere, or the device gives out. So when writing fails there is one draft it
fails at, those before it are there, and those after it have not been touched.
-/

namespace ResourcePack

open FileSystem

namespace Build

variable {disk done : Disk}

theorem runOn_writeDraft_disk (disk : Disk) (draft : Draft) :
    Files.runOn disk (writeDraft draft) =
      (((disk.write draft.path draft.content).1.map fun _ => draft.written).mapError
        draft.unwritable, (disk.write draft.path draft.content).2) :=
  runOn_writeDraft disk draft

theorem runOn_writeDraft_eq_ok {draft : Draft} {report : Written}
    (ran : Files.runOn disk (writeDraft draft) = (.ok report, done)) :
    disk.write draft.path draft.content = (.ok (), done) := by
  rw [runOn_writeDraft_disk, Prod.mk.injEq, Outcome.mapError_eq_ok, Outcome.map_eq_ok] at ran
  obtain ⟨⟨_, wrote, -⟩, rfl⟩ := ran
  exact Prod.ext wrote rfl

theorem admits_of_drafts {fs : FileSystem} {drafts : List Draft}
    {changes : List (List String × Bytes)}
    (aimed : ∀ change ∈ changes, ∃ draft ∈ drafts, fs.target draft.path = .ok change.1) :
    fs.Admits changes := by
  apply admits_of_target
  intro change member
  obtain ⟨draft, -, aimed⟩ := aimed change member
  exact ⟨draft.path, aimed⟩

/-- On disks that are alike the same files change in the same way, and the same is at fault
when a draft cannot be written. -/
theorem writeDrafts_alike {disk other : Disk} (alike : disk.Alike other) (drafts : List Draft) :
    ∃ changes, (∀ change ∈ changes, ∃ draft ∈ drafts,
        disk.files.target draft.path = .ok change.1) ∧
      (Files.runOn disk (writeDrafts drafts)).2.files = disk.files.setAll changes ∧
      (Files.runOn other (writeDrafts drafts)).2.files = other.files.setAll changes ∧
      (Files.runOn disk (writeDrafts drafts)).1.mapError Error.fault =
        (Files.runOn other (writeDrafts drafts)).1.mapError Error.fault := by
  induction drafts generalizing disk other with
  | nil => exact ⟨[], by simp, rfl, rfl, rfl⟩
  | cons draft rest ih =>
      obtain ⟨first, aimed, changed, changed', alike', ends⟩ :=
        alike.write draft.path draft.content
      have aimedFirst : ∀ change ∈ first, ∃ draft' ∈ draft :: rest,
          disk.files.target draft'.path = .ok change.1 := fun change member =>
        ⟨draft, List.mem_cons_self, aimed change member⟩
      rw [runOn_writeDrafts_cons, runOn_writeDrafts_cons, Disk.runs_write, Disk.runs_write]
      rcases wrote : disk.write draft.path draft.content with ⟨outcome, middle⟩
      rcases wrote' : other.write draft.path draft.content with ⟨outcome', middle'⟩
      rw [wrote, wrote'] at ends alike'
      rw [wrote] at changed
      rw [wrote'] at changed'
      match outcome, outcome' with
      | .error _, .ok _ => cases ends
      | .ok _, .error _ => cases ends
      | .error cause, .error cause' =>
          exact ⟨first, aimedFirst, changed, changed', by simp [Except.mapError]⟩
      | .ok _, .ok _ =>
          obtain ⟨later, aimedLater, onward, onward', same⟩ := ih alike'
          have kept : SameDirectories disk.files middle.files := by
            rw [changed]
            exact sameDirectories_setAll (admits_of_drafts aimedFirst)
          have added (ending : Except Error (List Written)) :
              (ending.map (draft.written :: ·)).mapError Error.fault =
                (ending.mapError Error.fault).map (draft.written :: ·) := by
            cases ending <;> rfl
          refine ⟨first ++ later, ?_, ?_, ?_, ?_⟩
          · intro change member
            obtain early | late := List.mem_append.mp member
            · exact aimedFirst change early
            · obtain ⟨other, among, aimed⟩ := aimedLater change late
              exact ⟨other, List.mem_cons_of_mem _ among, kept.target.mp aimed⟩
          · rw [setAll_append, ← changed]
            exact onward
          · rw [setAll_append, ← changed']
            exact onward'
          · dsimp only
            rw [added, added, same]

/-- What a run of drafts changes is where the drafts go. -/
theorem runOn_writeDrafts_changes {drafts : List Draft} {outcome : Except Error (List Written)}
    (ran : Files.runOn disk (writeDrafts drafts) = (outcome, done)) :
    ∃ changes, (∀ change ∈ changes, ∃ draft ∈ drafts,
        disk.files.target draft.path = .ok change.1) ∧
      disk.files.Admits changes ∧ done.files = disk.files.setAll changes := by
  obtain ⟨changes, aimed, changed, -⟩ := writeDrafts_alike (.refl disk) drafts
  rw [ran] at changed
  exact ⟨changes, aimed, admits_of_drafts aimed, changed⟩

theorem sameContent_writeDrafts {drafts : List Draft} {outcome : Except Error (List Written)}
    (ran : Files.runOn disk (writeDrafts drafts) = (outcome, done)) {path : Path}
    (spared : ∀ draft ∈ drafts, ¬ disk.files.Overwrites draft.path path) :
    SameContent disk.files done.files path := by
  obtain ⟨changes, aimed, admits, changed⟩ := runOn_writeDrafts_changes ran
  rw [changed]
  apply sameContent_setAll admits
  intro change member located
  obtain ⟨draft, among, aimed⟩ := aimed change member
  exact spared draft among ⟨change.1, aimed, located⟩

theorem node?_writeDrafts {drafts : List Draft} {outcome : Except Error (List Written)}
    (ran : Files.runOn disk (writeDrafts drafts) = (outcome, done)) {position : List String}
    (elsewhere : ∀ draft ∈ drafts, disk.files.target draft.path ≠ .ok position) :
    done.files.node? position = disk.files.node? position := by
  obtain ⟨changes, aimed, admits, changed⟩ := runOn_writeDrafts_changes ran
  rw [changed]
  apply node?_setAll_of_ne admits
  rintro change member rfl
  obtain ⟨draft, among, aimed⟩ := aimed change member
  exact elsewhere draft among aimed

/-- No draft undoes an earlier one if their paths end in different characters. -/
theorem read_writeDrafts {drafts : List Draft} {reports : List Written}
    (apart : drafts.Pairwise fun draft later => draft.path.EndApart later.path)
    (ran : Files.runOn disk (writeDrafts drafts) = (.ok reports, done)) :
    ∀ draft ∈ drafts, done.files.read draft.path = .ok draft.content := by
  induction drafts generalizing disk reports with
  | nil => simp
  | cons first rest ih =>
      obtain ⟨apartFirst, apartRest⟩ := List.pairwise_cons.mp apart
      obtain ⟨report, middle, wrote, onward⟩ := Files.runOn_bind_eq_ok.mp ran
      obtain ⟨others, final, wroteRest, last⟩ := Files.runOn_bind_eq_ok.mp onward
      cases last
      intro draft member
      obtain rfl | later := List.mem_cons.mp member
      · have there := Disk.read_write (runOn_writeDraft_eq_ok wrote)
        refine (sameContent_writeDrafts wroteRest ?_ _).mp there
        intro other among
        exact not_overwrites_of_endApart (apartFirst other among).symm
      · exact ih apartRest wroteRest draft later

end Build

end ResourcePack
