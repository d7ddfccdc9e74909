import ResourcePack.Build.MakeRules

/-!
# Reading rules for make

`read?` reads a text by the basic rules of make: a line up to the character `#`, if it is
not blank, has targets, a colon and prerequisites, with blanks between them. `rules` is
what a text of rules is meant to say.
-/

namespace ResourcePack

namespace MakeRules

/-- What is made, and what it is made from. -/
structure Rule where
  targets : List String
  prerequisites : List String
  deriving DecidableEq, Repr

/-- The characters that make takes for blanks within a line. -/
def isBlank (c : Char) : Bool := c = ' ' || c = '\t'

def words (text : List Char) : List String :=
  ((text.splitOnP isBlank).filter (!·.isEmpty)).map String.ofList

/-- The rule on a line. -/
def ofLine? (line : List Char) : Option Rule :=
  match line.dropWhile (· ≠ ':') with
  | [] => none
  | _ :: rest => some ⟨words (line.takeWhile (· ≠ ':')), words rest⟩

/-- The rules in a text. -/
def read? (text : String) : Option (List Rule) :=
  let lines := (text.toList.splitOn '\n').map (·.takeWhile (· ≠ '#'))
  (lines.filter (!·.all isBlank)).mapM ofLine?

/-- Whether rules say that a target is made from a file of this name. -/
def Needs (rules : List Rule) (target name : String) : Prop :=
  ∃ rule ∈ rules, target ∈ rule.targets ∧ name ∈ rule.prerequisites

/-- The rules that relate the files of a build to each other. -/
def rules (build : MakeRules) : List Rule :=
  ⟨[build.pack.text], build.prerequisites.map Path.text⟩ ::
  ⟨[build.header.text], [build.pack.text]⟩ ::
  build.dependencies.map fun path => ⟨[path.text], []⟩

example : read? "# c\n\na b: c  d # e\n\nf:\n" =
    some [⟨["a", "b"], ["c", "d"]⟩, ⟨["f"], []⟩] := by decide

end MakeRules

end ResourcePack
