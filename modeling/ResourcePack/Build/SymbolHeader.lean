import ResourcePack.Build.Collection

/-!
# The header of symbols

Firmware sources include a header that enumerates the names of all resources. The value
of a name is the index of the resource in the pack, and a comment tells where it came
from. Names and comments are written as they are.
-/

namespace ResourcePack

namespace SymbolHeader

def opening : String := "typedef enum resource_id \x7b"

def closing : String := "\x7d resource_id;"

/-- The lines before the first name. -/
def prologue : String :=
  "/* THIS FILE IS AUTOMATICALLY GENERATED BY pbpack. */\n" ++
  "/* IF YOU MODIFY IT, YOUR CHANGES WILL BE LOST ON THE NEXT BUILD. */\n" ++
  "\n" ++
  "#pragma once\n" ++
  "\n" ++
  opening ++ "\n"

/-- The line after the last name. -/
def epilogue : String := closing ++ "\n"

def line (resource : Resolved) : String :=
  s!"    {resource.name} = {resource.index}, /* (from {resource.provenance}) */\n"

def render (resources : List Resolved) : String :=
  prologue ++ String.join (resources.map line) ++ epilogue

end SymbolHeader

end ResourcePack
