import ResourcePack.Path

/-!
# Rules for make

The rules say that a pack depends on its manifest, the program that builds it and every
input file, and the header on the pack. Every input file also has a rule without
prerequisites, so that make carries on when one has been deleted. Paths are written as
they are.
-/

namespace ResourcePack

/-- The files that a build relates to each other. -/
structure MakeRules where
  pack : Path
  header : Path
  manifest : Path
  /-- The program that builds the pack, if it is known. -/
  tool : Option Path
  dependencies : List Path
  deriving DecidableEq, Repr

namespace MakeRules

def prerequisites (rules : MakeRules) : List Path :=
  rules.manifest :: rules.tool.toList ++ rules.dependencies

/-- The rule of an input file. -/
def inputRule (path : Path) : String := s!"{path.text}:\n\n"

def render (rules : MakeRules) : String :=
  "# automatically generated by pbpack\n\n" ++
  s!"{rules.pack.text}: " ++
  String.join (rules.prerequisites.map fun path => s!"{path.text} ") ++ "\n\n" ++
  s!"{rules.header.text}: {rules.pack.text}\n\n" ++
  String.join (rules.dependencies.map inputRule) ++
  "# end of generated dependencies\n"

end MakeRules

end ResourcePack
