import ResourcePack.Files.Access
import ResourcePack.Proofs.Outcome

/-!
# What a write changes

A successful write puts one file at one position, in a directory that was there, where no
directory was. So every path still leads where it led before, a read of the path itself
finds what was written, and a read that ends anywhere else finds what it found before.
-/

namespace ResourcePack

namespace Path

/-- A path whose last segment is a name, which ends in `c` like the path itself. -/
def EndsIn (path : Path) (c : Char) : Prop :=
  path.text.toList.getLast? = some c ∧ c ≠ '/' ∧ c ≠ '.'

theorem endsIn_append (path : Path) {ending : String} {c : Char}
    (last : ending.toList.getLast? = some c) (plain : c ≠ '/' ∧ c ≠ '.') :
    (path.append ending).EndsIn c :=
  ⟨by simp [append, List.getLast?_append, last], plain⟩

/-- Paths that end in different characters. -/
def EndApart (p q : Path) : Prop :=
  ∃ c c', p.EndsIn c ∧ q.EndsIn c' ∧ c ≠ c'

theorem EndApart.symm {p q : Path} (apart : p.EndApart q) : q.EndApart p := by
  obtain ⟨c, c', ends, ends', different⟩ := apart
  exact ⟨c', c, ends', ends, different.symm⟩

theorem splitOn_concat {c : Char} (plain : c ≠ '/') (xs : List Char) :
    ∃ before last, (xs ++ [c]).splitOn '/' = before ++ [last ++ [c]] := by
  induction xs with
  | nil =>
      refine ⟨[], [], List.splitOn_eq_singleton ?_⟩
      simpa using plain.symm
  | cons x xs ih =>
      obtain ⟨before, last, split⟩ := ih
      rw [List.cons_append, List.splitOn_cons_eq_if_modifyHead, split]
      by_cases slash : x = '/'
      · exact ⟨[] :: before, last, by simp [slash]⟩
      · cases before with
        | nil => exact ⟨[], x :: last, by simp [slash]⟩
        | cons first before => exact ⟨(x :: first) :: before, last, by simp [slash]⟩

end Path

namespace FileSystem

/-- The position that a path leads to, whether or not something stands there. -/
def locate (fs : FileSystem) (path : Path) : Except FileError (List String) := do
  let (origin, segments) ← fs.start path
  fs.walk origin segments

theorem read_eq_ok_iff {fs : FileSystem} {path : Path} {content : Bytes} :
    fs.read path = .ok content ↔
      ∃ position, fs.locate path = .ok position ∧ fs.node? position = some (.file content) := by
  unfold read find locate
  cases fs.start path with
  | error cause => simp [bind, Except.bind]
  | ok place =>
      simp only [bind, Except.bind]
      cases fs.walk place.1 place.2 with
      | error cause => simp
      | ok position =>
          cases found : fs.node? position with
          | none => simp [found]
          | some node => cases node <;> simp [found]

theorem lookup_filter_ne {position other : List String} (apart : other ≠ position)
    (nodes : List (List String × Node)) :
    (nodes.filter (·.1 ≠ position)).lookup other = nodes.lookup other := by
  induction nodes with
  | nil => rfl
  | cons entry rest ih =>
      obtain ⟨there, what⟩ := entry
      by_cases same : there = position
      · have missed : (other == there) = false := by
          rw [same]
          exact beq_eq_false_iff_ne.mpr apart
        rw [List.filter_cons_of_neg (by simp [same]), ih, List.lookup_cons, missed]
      · rw [List.filter_cons_of_pos (by simp [same]), List.lookup_cons, List.lookup_cons, ih]

/-- The root is a directory whatever is set, and everything else is looked up. -/
theorem node?_set {fs : FileSystem} {position : List String} (below : position ≠ [])
    (node : Node) (other : List String) :
    (fs.set position node).node? other =
      if other = position then some node else fs.node? other := by
  by_cases same : other = position
  · subst same
    simp [node?, set, below]
  · have missed : (other == position) = false := beq_eq_false_iff_ne.mpr same
    rw [if_neg same, node?, node?, set, List.lookup_cons, missed, lookup_filter_ne same]

theorem checkDirectory_eq_ok_iff {fs : FileSystem} {position : List String} :
    fs.checkDirectory position = .ok () ↔ fs.node? position = some .directory := by
  unfold checkDirectory
  split <;> simp [*]

/-- Trees with the same directories, whatever their files. -/
structure SameDirectories (before after : FileSystem) : Prop where
  current : after.current = before.current
  directory : ∀ position,
    after.node? position = some .directory ↔ before.node? position = some .directory

namespace SameDirectories

variable {before after other : FileSystem}

theorem refl (fs : FileSystem) : SameDirectories fs fs := ⟨rfl, fun _ => .rfl⟩

theorem symm (same : SameDirectories before after) : SameDirectories after before :=
  ⟨same.current.symm, fun position => (same.directory position).symm⟩

theorem trans (same : SameDirectories before after) (same' : SameDirectories after other) :
    SameDirectories before other :=
  ⟨same'.current.trans same.current,
    fun position => (same'.directory position).trans (same.directory position)⟩

theorem start (same : SameDirectories before after) (path : Path) :
    after.start path = before.start path := by
  unfold FileSystem.start
  rw [same.current]

theorem checkDirectory (same : SameDirectories before after) (position : List String) :
    after.checkDirectory position = .ok () ↔ before.checkDirectory position = .ok () := by
  rw [checkDirectory_eq_ok_iff, checkDirectory_eq_ok_iff, same.directory]

/-- Only directories are walked through. -/
theorem walk (same : SameDirectories before after) {origin final : List String}
    {segments : List String} :
    after.walk origin segments = .ok final ↔ before.walk origin segments = .ok final := by
  induction segments generalizing origin with
  | nil => rfl
  | cons segment rest ih =>
      simp only [FileSystem.walk, Outcome.bind_eq_ok, same.checkDirectory, ih]

end SameDirectories

/-- A file in a place where there was no directory leaves all directories. -/
theorem sameDirectories_set {fs : FileSystem} {position : List String} (below : position ≠ [])
    (free : fs.node? position ≠ some .directory) (content : Bytes) :
    SameDirectories fs (fs.set position (.file content)) := by
  refine ⟨rfl, ?_⟩
  intro other
  rw [node?_set below]
  split
  · rename_i here
    subst here
    simp [free]
  · rfl

theorem walk_append {fs : FileSystem} {origin : List String} (before after : List String) :
    fs.walk origin (before ++ after) = fs.walk origin before >>= (fs.walk · after) := by
  induction before generalizing origin with
  | nil => rfl
  | cons segment rest ih =>
      simp only [List.cons_append, walk]
      cases fs.checkDirectory origin with
      | error cause => rfl
      | ok _ =>
          cases step origin segment with
          | error cause => rfl
          | ok next => exact ih

/-- The only segment left to walk decides the position. -/
theorem walk_singleton {fs : FileSystem} {origin position : List String} {name : String}
    (ordinary : name ≠ "" ∧ name ≠ "." ∧ name ≠ "..")
    (walked : fs.walk origin [name] = .ok position) :
    fs.checkDirectory origin = .ok () ∧ position = origin ++ [name] := by
  obtain ⟨_, checked, walked⟩ := Outcome.bind_eq_ok.mp walked
  obtain ⟨next, stepped, walked⟩ := Outcome.bind_eq_ok.mp walked
  obtain ⟨notEmpty, notDot, notUp⟩ := ordinary
  simp only [step, notEmpty, notDot, or_self, notUp, if_false] at stepped
  split at stepped
  · cases stepped
  · cases stepped
    cases walked
    exact ⟨checked, rfl⟩

/-- Where a path starts depends on no file. -/
theorem start_eq_ok {fs : FileSystem} {path : Path} {origin segments : List String}
    (started : fs.start path = .ok (origin, segments)) :
    segments = path.segments ∧ ∀ other : FileSystem, other.current = fs.current →
      other.start path = .ok (origin, segments) := by
  simp only [start] at started ⊢
  split at started
  · cases started
  · split at started
    · cases started
    · split at started
      · cases started
      · cases started
        refine ⟨rfl, ?_⟩
        intro other same
        simp only [*, if_false]

/-- The last character of a path is the last one of the name it leads to. -/
theorem locate_ends {fs : FileSystem} {path : Path} {c : Char} {position : List String}
    (ends : path.EndsIn c) (located : fs.locate path = .ok position) :
    ∃ parent last, position = parent ++ [String.ofList (last ++ [c])] := by
  obtain ⟨final, notSlash, notDot⟩ := ends
  obtain ⟨stem, spelled⟩ := List.getLast?_eq_some_iff.mp final
  obtain ⟨⟨origin, segments⟩, started, walked⟩ := Outcome.bind_eq_ok.mp located
  obtain ⟨before, last, split⟩ := Path.splitOn_concat notSlash stem
  simp only [(start_eq_ok started).1, Path.segments, spelled, split, List.map_append, List.map_cons,
    List.map_nil, walk_append] at walked
  obtain ⟨parent, -, walked⟩ := Outcome.bind_eq_ok.mp walked
  have apart {text : String} (other : text.toList.getLast? ≠ some c) :
      String.ofList (last ++ [c]) ≠ text := by
    rintro rfl
    simp at other
  have ordinary : String.ofList (last ++ [c]) ≠ "" ∧ String.ofList (last ++ [c]) ≠ "." ∧
      String.ofList (last ++ [c]) ≠ ".." := by
    refine ⟨?_, ?_, ?_⟩
    · apply apart
      simp
    · apply apart
      simpa using notDot.symm
    · apply apart
      simpa using notDot.symm
  exact ⟨parent, last, (walk_singleton ordinary walked).2⟩

theorem splitLast_of_getLast? {segments before : List String} {name : String}
    (split : splitLast segments = some (before, name)) (last : segments.getLast? ≠ some "") :
    segments = before ++ [name] ∧ name ≠ "" := by
  rcases List.eq_nil_or_concat segments with rfl | ⟨front, final, rfl⟩
  · simp [splitLast] at split
  · have named : final ≠ "" := by simpa using last
    have kept : splitLast (front.concat final) = some (front, final) := by
      simp [splitLast, named]
    cases kept.symm.trans split
    exact ⟨List.concat_eq_append, named⟩

theorem SameDirectories.locate {before after : FileSystem} (same : SameDirectories before after)
    {path : Path} {position : List String} :
    after.locate path = .ok position ↔ before.locate path = .ok position := by
  simp only [FileSystem.locate, Outcome.bind_eq_ok, same.start, same.walk]

theorem target_eq_ok_iff {fs : FileSystem} {path : Path} {position : List String} :
    fs.target path = .ok position ↔ ∃ place before name parent, fs.start path = .ok place ∧
      splitLast place.2 = some (before, name) ∧ fs.walk place.1 before = .ok parent ∧
      fs.checkDirectory parent = .ok () ∧
      ¬ (name = "." ∨ name = ".." ∨ place.2.getLast? = some "") ∧
      step parent name = .ok position ∧ fs.node? position ≠ some .directory := by
  constructor
  · intro aimed
    obtain ⟨place, started, aimed⟩ := Outcome.bind_eq_ok.mp aimed
    dsimp only at aimed
    split at aimed
    · cases aimed
    · rename_i before name split
      obtain ⟨parent, walked, aimed⟩ := Outcome.bind_eq_ok.mp aimed
      obtain ⟨_, checked, aimed⟩ := Outcome.bind_eq_ok.mp aimed
      split at aimed
      · cases aimed
      · rename_i ordinary
        obtain ⟨found, stepped, aimed⟩ := Outcome.bind_eq_ok.mp aimed
        split at aimed
        · cases aimed
        · rename_i free
          cases aimed
          exact ⟨place, before, name, parent, started, split, walked, checked, ordinary, stepped,
            free⟩
  · rintro ⟨place, before, name, parent, started, split, walked, checked, ordinary, stepped, free⟩
    simp only [target, started, split, walked, checked, ordinary, stepped, bind, Except.bind,
      if_false]

theorem SameDirectories.target {before after : FileSystem} (same : SameDirectories before after)
    {path : Path} {position : List String} :
    after.target path = .ok position ↔ before.target path = .ok position := by
  simp only [target_eq_ok_iff, same.start, same.walk, same.checkDirectory, ne_eq, same.directory]

/-- A file is put where its path leads, below the root and in place of no directory. -/
theorem target_eq_ok {fs : FileSystem} {path : Path} {position : List String}
    (aimed : fs.target path = .ok position) :
    fs.locate path = .ok position ∧ position ≠ [] ∧ fs.node? position ≠ some .directory := by
  obtain ⟨place, before, name, parent, started, split, walked, checked, ordinary, stepped, free⟩ :=
    target_eq_ok_iff.mp aimed
  rw [not_or, not_or] at ordinary
  obtain ⟨spelled, named⟩ := splitLast_of_getLast? split ordinary.2.2
  have last : fs.walk parent [name] = .ok position := by
    simp only [walk, checked, stepped, bind, Except.bind]
  have here : position = parent ++ [name] :=
    (walk_singleton ⟨named, ordinary.1, ordinary.2.1⟩ last).2
  refine ⟨?_, by simp [here], free⟩
  simp only [locate, started, bind, Except.bind]
  rw [spelled, walk_append, walked]
  exact last

/-- A write succeeds by putting the content where the path leads. -/
theorem write_eq_ok {fs changed : FileSystem} {path : Path} {content : Bytes}
    (wrote : fs.write path content = .ok changed) :
    ∃ position, fs.target path = .ok position ∧ changed = fs.set position (.file content) := by
  obtain ⟨position, aimed, same⟩ := Outcome.bind_eq_ok.mp wrote
  cases same
  exact ⟨position, aimed, rfl⟩

theorem sameDirectories_write {fs changed : FileSystem} {path : Path} {content : Bytes}
    (wrote : fs.write path content = .ok changed) : SameDirectories fs changed := by
  obtain ⟨target, aimed, rfl⟩ := write_eq_ok wrote
  obtain ⟨-, below, free⟩ := target_eq_ok aimed
  exact sameDirectories_set below free content

/-- Every path that led somewhere still leads there. -/
theorem locate_write {fs changed : FileSystem} {path other : Path} {content : Bytes}
    {position : List String} (wrote : fs.write path content = .ok changed)
    (located : fs.locate other = .ok position) : changed.locate other = .ok position :=
  (sameDirectories_write wrote).locate.mpr located

/-- What is written is what is read. -/
theorem read_write {fs changed : FileSystem} {path : Path} {content : Bytes}
    (wrote : fs.write path content = .ok changed) : changed.read path = .ok content := by
  obtain ⟨position, aimed, rfl⟩ := write_eq_ok wrote
  obtain ⟨located, below, -⟩ := target_eq_ok aimed
  rw [read_eq_ok_iff]
  refine ⟨position, locate_write wrote located, ?_⟩
  rw [node?_set below, if_pos rfl]

/-- Paths that end in different characters lead to different places, however both are
spelled. -/
theorem locate_ne_of_ends_ne {fs : FileSystem} {path other : Path} {c c' : Char}
    {position position' : List String} (ends : path.EndsIn c) (ends' : other.EndsIn c')
    (apart : c ≠ c') (located : fs.locate path = .ok position)
    (located' : fs.locate other = .ok position') : position ≠ position' := by
  obtain ⟨parent, last, rfl⟩ := locate_ends ends located
  obtain ⟨parent', last', rfl⟩ := locate_ends ends' located'
  intro same
  obtain ⟨-, -, final⟩ :
      parent = parent' ∧ String.ofList last = String.ofList last' ∧ c = c' := by
    simpa using same
  exact apart final

/-- A file whose path ends in another character is another file. -/
theorem read_write_of_ends_ne {fs changed : FileSystem} {path other : Path}
    {content found : Bytes} {c c' : Char} (ends : path.EndsIn c) (ends' : other.EndsIn c')
    (apart : c ≠ c') (wrote : fs.write path content = .ok changed)
    (there : fs.read other = .ok found) : changed.read other = .ok found := by
  obtain ⟨position, located, node⟩ := read_eq_ok_iff.mp there
  obtain ⟨target, aimed, rfl⟩ := write_eq_ok wrote
  obtain ⟨aimed, below, -⟩ := target_eq_ok aimed
  have different := locate_ne_of_ends_ne ends ends' apart aimed located
  rw [read_eq_ok_iff]
  refine ⟨_, locate_write wrote located, ?_⟩
  rw [node?_set below, if_neg different.symm, node]

/-- No file stands at the root. -/
theorem ne_nil_of_file {fs : FileSystem} {position : List String} {content : Bytes}
    (stands : fs.node? position = some (.file content)) : position ≠ [] := by
  rintro rfl
  cases stands

/-- With another content a file stands in the way of the same paths. -/
theorem walk_set_file {fs : FileSystem} {position : List String} {before after : Bytes}
    (stands : fs.node? position = some (.file before)) (origin segments : List String) :
    (fs.set position (.file after)).walk origin segments = fs.walk origin segments := by
  have checked (place : List String) :
      (fs.set position (.file after)).checkDirectory place = fs.checkDirectory place := by
    unfold checkDirectory
    rw [node?_set (ne_nil_of_file stands)]
    by_cases same : place = position
    · rw [if_pos same, same, stands]
    · rw [if_neg same]
  induction segments generalizing origin with
  | nil => rfl
  | cons segment rest ih =>
      rw [walk, walk, checked]
      simp only [ih]

/-- Another content of a file matters to no path that leads elsewhere, not even to one that
leads nowhere. -/
theorem read_set_file {fs : FileSystem} {position : List String} {before after : Bytes}
    {path : Path} (stands : fs.node? position = some (.file before))
    (elsewhere : fs.locate path ≠ .ok position) :
    (fs.set position (.file after)).read path = fs.read path := by
  have started : (fs.set position (.file after)).start path = fs.start path := rfl
  unfold locate at elsewhere
  unfold read find
  rw [started]
  cases found : fs.start path with
  | error cause => rfl
  | ok place =>
      obtain ⟨origin, segments⟩ := place
      rw [found] at elsewhere
      simp only [bind, Except.bind, walk_set_file stands] at elsewhere ⊢
      cases walked : fs.walk origin segments with
      | error cause => rfl
      | ok final =>
          rw [walked] at elsewhere
          have apart : final ≠ position := by
            rintro rfl
            exact elsewhere rfl
          simp only [node?_set (ne_nil_of_file stands), if_neg apart]

end FileSystem

end ResourcePack
