import ResourcePack.Proofs.Files.Writing

/-!
# Spellings of a path

A path is followed segment by segment, and two spellings of it differ in segments that
lead nowhere else. So where a path leads, if it leads anywhere, is decided by its
components, and spellings that can both be read give the same content. They need not both
be readable: a slash at the end asks for a directory.
-/

namespace ResourcePack

namespace Path

/-- Where a component leads from a position of a tree. -/
def Component.enter (position : List String) : Component → List String
  | .root => []
  | .here => position
  | .up => position.dropLast
  | .named name => position ++ [name]

/-- The first segment of a path is empty exactly if the path is absolute, and then it is not
the only one. -/
theorem segments_eq_cons {path : Path} (some : path.text ≠ "") :
    (path.isAbsolute = true ∧ ∃ next rest, path.segments = "" :: next :: rest) ∨
      (path.isAbsolute = false ∧ ∃ first rest, first ≠ "" ∧ path.segments = first :: rest) := by
  unfold isAbsolute segments
  cases spelled : path.text.toList with
  | nil => exact absurd (String.toList_eq_nil_iff.mp spelled) some
  | cons c text =>
      obtain ⟨first, rest, split⟩ := List.exists_cons_of_ne_nil (List.splitOn_ne_nil '/' text)
      rw [List.splitOn_cons_eq_if_modifyHead, split]
      by_cases slash : c = '/'
      · exact .inl ⟨by simp [slash], String.ofList first, rest.map String.ofList, by simp [slash]⟩
      · exact .inr ⟨by simp [slash], String.ofList (c :: first), rest.map String.ofList, by simp,
          by simp [slash]⟩

/-- What is special about the first component is where a path starts. -/
theorem foldl_components {path : Path} (some : path.text ≠ "") (current : List String) :
    path.components.foldl Component.enter current =
      (path.segments.filterMap Component.ofSegment?).foldl Component.enter
        (if path.isAbsolute then [] else current) := by
  unfold components
  obtain ⟨absolute, next, rest, split⟩ | ⟨relative, first, rest, named, split⟩ :=
    segments_eq_cons some
  · rw [split, absolute]
    rfl
  · rw [split, relative]
    split
    · rename_i same
      cases same
      exact absurd rfl named
    · rename_i same
      cases same
      exact absurd rfl named
    · rename_i same
      cases same
      rfl
    · rfl

end Path

namespace FileSystem

open ResourcePack.Path

theorem step_eq_ok {position next : List String} {segment : String}
    (stepped : step position segment = .ok next) :
    next = (Component.ofSegment? segment).elim position (Component.enter position) := by
  unfold step at stepped
  unfold Component.ofSegment?
  split
  · rename_i plain
    rw [if_pos plain] at stepped
    cases stepped
    rfl
  · rename_i plain
    rw [if_neg plain] at stepped
    split
    · rename_i up
      rw [if_pos up] at stepped
      cases stepped
      rfl
    · rename_i up
      rw [if_neg up] at stepped
      split at stepped
      · cases stepped
      · cases stepped
        rfl

/-- A walk that succeeds ends where the components of its segments lead. -/
theorem walk_eq_ok {fs : FileSystem} {origin final : List String} {segments : List String}
    (walked : fs.walk origin segments = .ok final) :
    final = (segments.filterMap Component.ofSegment?).foldl Component.enter origin := by
  induction segments generalizing origin with
  | nil =>
      cases walked
      rfl
  | cons segment rest ih =>
      obtain ⟨_, checked, walked⟩ := Outcome.bind_eq_ok.mp walked
      obtain ⟨next, stepped, walked⟩ := Outcome.bind_eq_ok.mp walked
      rw [ih walked, step_eq_ok stepped, List.filterMap_cons]
      cases Component.ofSegment? segment with
      | none => rfl
      | some component => rfl

/-- Where a path leads is decided by its components. -/
theorem locate_eq_ok {fs : FileSystem} {path : Path} {position : List String}
    (located : fs.locate path = .ok position) :
    position = path.components.foldl Component.enter fs.current := by
  obtain ⟨⟨origin, segments⟩, started, walked⟩ := Outcome.bind_eq_ok.mp located
  unfold start at started
  split at started
  · cases started
  · rename_i some
    split at started
    · cases started
    · split at started
      · cases started
      · cases started
        rw [walk_eq_ok walked, foldl_components some]

theorem locate_same {fs : FileSystem} {p q : Path} {position position' : List String}
    (same : p.Same q) (located : fs.locate p = .ok position)
    (located' : fs.locate q = .ok position') : position = position' := by
  rw [locate_eq_ok located, locate_eq_ok located', same]

/-- Spellings of a path that can be read have the same content. -/
theorem read_same {fs : FileSystem} {p q : Path} {content content' : Bytes} (same : p.Same q)
    (there : fs.read p = .ok content) (there' : fs.read q = .ok content') :
    content = content' := by
  obtain ⟨position, located, node⟩ := read_eq_ok_iff.mp there
  obtain ⟨position', located', node'⟩ := read_eq_ok_iff.mp there'
  rw [locate_same same located located', node'] at node
  cases node
  rfl

end FileSystem

end ResourcePack
