import ResourcePack.Proofs.Files.Running
import ResourcePack.Proofs.Files.Spelling

/-!
# Writing on a device that may fail

A `Disk` is a tree of files on a device. The device may refuse a write, or give out in the
middle of one and leave anything at all in the file, and it may do so once and not again.
What files a write changes, and how, depends on nothing but the directories of the tree and
what the device does then. In particular no other file is changed, and writing the same again
on a device that does the same again makes no further change.
-/

namespace ResourcePack

/-- What becomes of contents that are written to files. -/
structure Device where
  /-- What is in a file when a content has been written to it, unless the file is left as it
  was, and how the write ends, after as many writes as `count` says. -/
  store : (count : Nat) → Path → Bytes → Option Bytes × Except FileError Unit
  /-- A write that does not fail has stored everything. -/
  faithful : ∀ count path content, (store count path content).2 = .ok () →
    (store count path content).1 = some content

/-- A device that stores all it is given. -/
def Device.reliable : Device where
  store _ _ content := (some content, .ok ())
  faithful _ _ _ _ := rfl

/-- A tree of files on a device. -/
structure Disk where
  device : Device
  files : FileSystem
  /-- The number of writes that the device has seen. -/
  count : Nat

namespace Disk

/-- Write a file. It is only opened if the path leads to a place for one. -/
def write (disk : Disk) (path : Path) (content : Bytes) : Except FileError Unit × Disk :=
  match disk.files.target path with
  | .error cause => (.error cause, disk)
  | .ok position =>
    let (kept, outcome) := disk.device.store disk.count path content
    (outcome, { disk with
      files := match kept with
        | none => disk.files
        | some stored => disk.files.set position (.file stored)
      count := disk.count + 1 })

instance : Files (StateM Disk) where
  read path := fun disk => (disk.files.read path, disk)
  write path content := fun disk => disk.write path content
  makeDirectory path := fun disk =>
    let (outcome, files) := disk.files.commit (disk.files.makeDirectory path)
    (outcome, { disk with files })
  isDirectory path := fun disk => (disk.files.isDirectory path, disk)

theorem runs_write (disk : Disk) (path : Path) (content : Bytes) :
    (Files.write path content : StateM Disk (Except FileError Unit)) disk =
      disk.write path content := rfl

theorem observes : Files.Observes fun disk : Disk => disk.files.read := ⟨fun _ _ => rfl⟩

/-- Whether from now on the device of another disk does what the device of this one does. -/
def ActsLike (disk other : Disk) : Prop :=
  ∀ count, other.device.store (other.count + count) = disk.device.store (disk.count + count)

end Disk

namespace FileSystem

/-- Put files at positions, one after the other. -/
def setAll (fs : FileSystem) (changes : List (List String × Bytes)) : FileSystem :=
  changes.foldl (fun fs change => fs.set change.1 (.file change.2)) fs

@[simp] theorem setAll_nil (fs : FileSystem) : fs.setAll [] = fs := rfl

@[simp] theorem setAll_cons (fs : FileSystem) (change : List String × Bytes)
    (rest : List (List String × Bytes)) :
    fs.setAll (change :: rest) = (fs.set change.1 (.file change.2)).setAll rest := rfl

theorem setAll_append (fs : FileSystem) (before after : List (List String × Bytes)) :
    fs.setAll (before ++ after) = (fs.setAll before).setAll after := List.foldl_append

@[simp] theorem current_setAll (fs : FileSystem) (changes : List (List String × Bytes)) :
    (fs.setAll changes).current = fs.current := by
  induction changes generalizing fs with
  | nil => rfl
  | cons change rest ih => exact ih _

/-- A change in a tree is made where there is room for a file: not at the root, and not in
place of a directory. -/
def Admits (fs : FileSystem) (changes : List (List String × Bytes)) : Prop :=
  ∀ change ∈ changes, change.1 ≠ [] ∧ fs.node? change.1 ≠ some .directory

theorem admits_of_target {fs : FileSystem} {changes : List (List String × Bytes)}
    (aimed : ∀ change ∈ changes, ∃ path, fs.target path = .ok change.1) : fs.Admits changes := by
  intro change member
  obtain ⟨path, aimed⟩ := aimed change member
  exact (target_eq_ok aimed).2

theorem SameDirectories.admits {before after : FileSystem} (same : SameDirectories before after)
    {changes : List (List String × Bytes)} (admits : before.Admits changes) :
    after.Admits changes := by
  intro change member
  obtain ⟨below, free⟩ := admits change member
  exact ⟨below, fun directory => free ((same.directory _).mp directory)⟩

theorem sameDirectories_setAll {fs : FileSystem} {changes : List (List String × Bytes)}
    (admits : fs.Admits changes) : SameDirectories fs (fs.setAll changes) := by
  induction changes generalizing fs with
  | nil => exact .refl fs
  | cons change rest ih =>
      obtain ⟨below, free⟩ := admits change List.mem_cons_self
      have first := sameDirectories_set below free change.2
      refine first.trans (ih (first.admits ?_))
      exact fun other member => admits other (List.mem_cons_of_mem _ member)

/-- What stands where nothing is put stays. -/
theorem node?_setAll_of_ne {fs : FileSystem} {changes : List (List String × Bytes)}
    (admits : fs.Admits changes) {position : List String}
    (elsewhere : ∀ change ∈ changes, change.1 ≠ position) :
    (fs.setAll changes).node? position = fs.node? position := by
  induction changes generalizing fs with
  | nil => rfl
  | cons change rest ih =>
      obtain ⟨below, free⟩ := admits change List.mem_cons_self
      have first := sameDirectories_set below free change.2
      rw [setAll_cons, ih (first.admits fun other member => admits other (.tail _ member))
        fun other member => elsewhere other (.tail _ member), node?_set below,
        if_neg (elsewhere change List.mem_cons_self).symm]

/-- A path has the same content in two trees, or none in either. -/
def SameContent (before after : FileSystem) (path : Path) : Prop :=
  ∀ content, before.read path = .ok content ↔ after.read path = .ok content

theorem SameContent.refl (fs : FileSystem) (path : Path) : SameContent fs fs path :=
  fun _ => .rfl

/-- A path keeps its content if nothing is put where it leads. -/
theorem sameContent_setAll {fs : FileSystem} {changes : List (List String × Bytes)}
    (admits : fs.Admits changes) {path : Path}
    (elsewhere : ∀ change ∈ changes, fs.locate path ≠ .ok change.1) :
    SameContent fs (fs.setAll changes) path := by
  intro content
  simp only [read_eq_ok_iff, (sameDirectories_setAll admits).locate]
  refine exists_congr fun position => and_congr_right fun located => ?_
  rw [node?_setAll_of_ne admits]
  rintro change member rfl
  exact elsewhere change member located

/-- Writing to one path puts a file where the other one leads. -/
def Overwrites (fs : FileSystem) (output input : Path) : Prop :=
  ∃ position, fs.target output = .ok position ∧ fs.locate input = .ok position

theorem overwrites_iff {fs : FileSystem} {output input : Path} :
    fs.Overwrites output input ↔
      (fs.target output).toOption.any fun position =>
        (fs.locate input).toOption.any (· = position) := by
  unfold Overwrites
  cases fs.target output <;> cases fs.locate input <;> simp [Except.toOption]

instance (fs : FileSystem) (output input : Path) : Decidable (fs.Overwrites output input) :=
  decidable_of_iff _ overwrites_iff.symm

theorem not_overwrites_of_endApart {fs : FileSystem} {output input : Path}
    (apart : output.EndApart input) : ¬ fs.Overwrites output input := by
  rintro ⟨position, aimed, located⟩
  obtain ⟨c, c', ends, ends', different⟩ := apart
  exact locate_ne_of_ends_ne ends ends' different (target_eq_ok aimed).1 located rfl

end FileSystem

namespace Disk

open FileSystem

/-- Two disks with the same directories, the devices of which do the same from now on. -/
structure Alike (disk other : Disk) : Prop where
  acts : disk.ActsLike other
  directories : SameDirectories disk.files other.files

theorem Alike.refl (disk : Disk) : disk.Alike disk := ⟨fun _ => rfl, .refl _⟩

theorem write_of_target {disk : Disk} {path : Path} {position : List String}
    (aimed : disk.files.target path = .ok position) (content : Bytes) :
    disk.write path content =
      ((disk.device.store disk.count path content).2,
        { disk with
          files := disk.files.setAll
            ((disk.device.store disk.count path content).1.toList.map (position, ·))
          count := disk.count + 1 }) := by
  simp only [write, aimed]
  cases (disk.device.store disk.count path content).1 <;> rfl

/-- What a write changes, and whether it succeeds, is the same on disks that are alike, and
they are alike afterwards. -/
theorem Alike.write {disk other : Disk} (alike : disk.Alike other) (path : Path)
    (content : Bytes) :
    ∃ changes, (∀ change ∈ changes, disk.files.target path = .ok change.1) ∧
      (disk.write path content).2.files = disk.files.setAll changes ∧
      (other.write path content).2.files = other.files.setAll changes ∧
      (disk.write path content).2.Alike (other.write path content).2 ∧
      (disk.write path content).1.isOk = (other.write path content).1.isOk := by
  cases aimed : disk.files.target path with
  | error cause =>
      cases aimed' : other.files.target path with
      | error cause' =>
          have refused : disk.write path content = (.error cause, disk) := by
            simp only [Disk.write, aimed]
          have refused' : other.write path content = (.error cause', other) := by
            simp only [Disk.write, aimed']
          rw [refused, refused']
          exact ⟨[], by simp, rfl, rfl, alike, rfl⟩
      | ok position => cases aimed.symm.trans (alike.directories.target.mp aimed')
  | ok position =>
      have aimed' := alike.directories.target.mpr aimed
      have acts : other.device.store other.count = disk.device.store disk.count := alike.acts 0
      refine ⟨(disk.device.store disk.count path content).1.toList.map (position, ·), ?_⟩
      have admits : disk.files.Admits
          ((disk.device.store disk.count path content).1.toList.map (position, ·)) := by
        intro change member
        obtain ⟨stored, -, rfl⟩ := List.mem_map.mp member
        exact (target_eq_ok aimed).2
      rw [write_of_target aimed, write_of_target aimed', acts]
      refine ⟨by simp, rfl, rfl, ⟨?_, ?_⟩, rfl⟩
      · intro count
        rw [Nat.add_assoc, Nat.add_assoc]
        exact alike.acts (1 + count)
      · exact (sameDirectories_setAll admits).symm.trans
          (alike.directories.trans (sameDirectories_setAll (alike.directories.admits admits)))

/-- What is written without failure is what is read. -/
theorem read_write {disk done : Disk} {path : Path} {content : Bytes}
    (wrote : disk.write path content = (.ok (), done)) : done.files.read path = .ok content := by
  cases aimed : disk.files.target path with
  | error cause =>
      simp only [write, aimed, Prod.mk.injEq, reduceCtorEq, false_and] at wrote
  | ok position =>
      rw [write_of_target aimed, Prod.mk.injEq] at wrote
      obtain ⟨succeeds, rfl⟩ := wrote
      have written : disk.files.write path content =
          .ok (disk.files.set position (.file content)) := by
        rw [FileSystem.write, aimed]
        rfl
      rw [disk.device.faithful _ _ _ succeeds]
      exact FileSystem.read_write written

end Disk

end ResourcePack
