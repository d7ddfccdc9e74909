/-!
# Paths

A path is the text a user wrote. It is printed as written, but two spellings name the
same place by components when they differ only in repeated or trailing slashes and in
inner `.` segments. A leading `.` counts, and `..` is never folded away.
-/

namespace ResourcePack

/-- A path as it was spelled. -/
structure Path where
  text : String
  deriving DecidableEq, Repr, Inhabited

namespace Path

/-- One step of a path once its spelling is forgotten. -/
inductive Component where
  /-- The slash an absolute path starts with. -/
  | root
  /-- A leading `.`. -/
  | here
  /-- A `..`. -/
  | up
  /-- Any other name. -/
  | named (name : String)
  deriving DecidableEq, Repr

namespace Component

/-- What a segment that is not the first one stands for; empty segments and `.` stand
for nothing. -/
def ofSegment? (segment : String) : Option Component :=
  if segment = "" ∨ segment = "." then none
  else if segment = ".." then some .up
  else some (.named segment)

/-- How a component is spelled between slashes. -/
def segment : Component → String
  | .root => ""
  | .here => "."
  | .up => ".."
  | .named name => name

end Component

/-- The texts between the slashes of a path. -/
def segments (p : Path) : List String :=
  (p.text.toList.splitOn '/').map String.ofList

def components (p : Path) : List Component :=
  match p.segments with
  | [""] => []
  | "" :: rest => .root :: rest.filterMap Component.ofSegment?
  | "." :: rest => .here :: rest.filterMap Component.ofSegment?
  | segments => segments.filterMap Component.ofSegment?

/-- Equality by components. -/
def Same (p q : Path) : Prop :=
  p.components = q.components

instance (p q : Path) : Decidable (p.Same q) :=
  inferInstanceAs (Decidable (p.components = q.components))

theorem Same.refl (p : Path) : p.Same p := rfl

theorem Same.symm {p q : Path} (h : p.Same q) : q.Same p := Eq.symm h

theorem Same.trans {p q r : Path} (h₁ : p.Same q) (h₂ : q.Same r) : p.Same r :=
  Eq.trans h₁ h₂

/-- Whether a path starts at the root. -/
def isAbsolute (p : Path) : Bool :=
  p.text.toList.head? == some '/'

/-- Take `q` relative to `p`. An absolute `q` stands for itself, and no slash is added
where `p` is empty or ends in one. -/
def join (p q : Path) : Path :=
  if q.isAbsolute then q
  else if p.text.toList.getLast?.all (· == '/') then ⟨p.text ++ q.text⟩
  else ⟨p.text ++ "/" ++ q.text⟩

/-- Lengthen the last name of a path, dots in it or not. -/
def append (p : Path) (ending : String) : Path :=
  ⟨p.text ++ ending⟩

/-- The name of the file a path leads to, if it does not end in `..` or at the root. -/
def fileName? (p : Path) : Option String :=
  match p.components.getLast? with
  | some (.named name) => some name
  | _ => none

/-- What follows the last dot of the file name. A name whose only dot comes first has no
extension. -/
def extension? (p : Path) : Option String := do
  let name := (← p.fileName?).toList
  let ending := (name.reverse.takeWhile (· != '.')).reverse
  if ending.length + 1 < name.length then some (String.ofList ending) else none

/-- The path spelled from components. -/
def ofComponents : List Component → Path
  | [.root] => ⟨"/"⟩
  | components => ⟨"/".intercalate (components.map Component.segment)⟩

/-- The paths above a path, the nearest one first. -/
def above (p : Path) : List Path :=
  (List.range p.components.length).reverse.map fun n => ofComponents (p.components.take n)

example : (Path.mk "a//b/./c/").Same ⟨"a/b/c"⟩ ∧ ¬ (Path.mk "./a").Same ⟨"a"⟩ := by decide

example : (Path.mk "d").join ⟨"x"⟩ = ⟨"d/x"⟩ ∧ (Path.mk "d/").join ⟨"x"⟩ = ⟨"d/x"⟩
    ∧ (Path.mk "d").join ⟨"/x"⟩ = ⟨"/x"⟩ ∧ (Path.mk "").join ⟨"x"⟩ = ⟨"x"⟩ := by decide

example : (Path.mk "a//b/c/").above = [⟨"a/b"⟩, ⟨"a"⟩, ⟨""⟩] := by decide

example : (Path.mk "m/r.toml/").extension? = some "toml" ∧ (Path.mk ".toml").extension? = none
    ∧ (Path.mk "a.b.").extension? = some "" ∧ (Path.mk "toml").extension? = none := by decide

end Path

end ResourcePack
