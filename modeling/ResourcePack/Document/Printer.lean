import ResourcePack.Document.Basic

/-!
# Documents as JSON text

`compact` writes a document without any blanks. `pretty` gives every item and member a
line of its own, two spaces further in than the brackets around them; brackets with
nothing between them stay together. Dates are written as text.
-/

namespace ResourcePack

namespace Document

def hexDigit (n : Nat) : Char := Nat.digitChar n

/-- How a character is written in quotes. -/
def escape (c : Char) : List Char :=
  match c with
  | '"' => ['\\', '"']
  | '\\' => ['\\', '\\']
  | '\x08' => ['\\', 'b']
  | '\x0c' => ['\\', 'f']
  | '\n' => ['\\', 'n']
  | '\r' => ['\\', 'r']
  | '\t' => ['\\', 't']
  | c =>
    if c.toNat < 0x20 then
      ['\\', 'u', '0', '0', hexDigit (c.toNat / 16), hexDigit (c.toNat % 16)]
    else [c]

/-- Text in quotes. Half of a surrogate pair stands in for text that is none. -/
def quote : Option String → String
  | some value => "\"" ++ String.ofList (value.toList.flatMap escape) ++ "\""
  | none => "\"\\ud800\""

mutual

def compact : Document → String
  | .null => "null"
  | .bool value => if value then "true" else "false"
  | .integer value => toString value
  | .number spelling => spelling
  | .date spelling => quote (some spelling)
  | .text value => quote value
  | .list items => "[" ++ compactItems items ++ "]"
  | .record members => "\x7b" ++ compactMembers members ++ "\x7d"

def compactItems : List Document → String
  | [] => ""
  | [item] => item.compact
  | item :: rest => item.compact ++ "," ++ compactItems rest

def compactMembers : List (Option String × Document) → String
  | [] => ""
  | [(key, value)] => quote key ++ ":" ++ value.compact
  | (key, value) :: rest => quote key ++ ":" ++ value.compact ++ "," ++ compactMembers rest

end

/-- The start of a line at a level of nesting. -/
def newline (level : Nat) : String :=
  String.ofList ('\n' :: List.replicate (2 * level) ' ')

mutual

/-- A document on several lines, the first of which continues a line at this level. -/
def prettyAt (level : Nat) : Document → String
  | .list [] => "[]"
  | .list items => "[" ++ prettyItems (level + 1) items ++ newline level ++ "]"
  | .record [] => "\x7b\x7d"
  | .record members =>
    "\x7b" ++ prettyMembers (level + 1) members ++ newline level ++ "\x7d"
  | .null => "null"
  | .bool value => if value then "true" else "false"
  | .integer value => toString value
  | .number spelling => spelling
  | .date spelling => quote (some spelling)
  | .text value => quote value

def prettyItems (level : Nat) : List Document → String
  | [] => ""
  | [item] => newline level ++ item.prettyAt level
  | item :: rest => newline level ++ item.prettyAt level ++ "," ++ prettyItems level rest

def prettyMembers (level : Nat) : List (Option String × Document) → String
  | [] => ""
  | [(key, value)] => newline level ++ quote key ++ ": " ++ value.prettyAt level
  | (key, value) :: rest =>
    newline level ++ quote key ++ ": " ++ value.prettyAt level ++ "," ++
      prettyMembers level rest

end

def pretty (document : Document) : String := document.prettyAt 0

example : (object [("a", .list [.nat 1, .null]), ("b\n", .list [])]).compact =
    "\x7b\"a\":[1,null],\"b\\n\":[]\x7d" := by decide

example : (object [("a", .list [.nat 1])]).pretty =
    "\x7b\n  \"a\": [\n    1\n  ]\n\x7d" := by decide

end Document

end ResourcePack
