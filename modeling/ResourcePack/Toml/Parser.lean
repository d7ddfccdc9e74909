import ResourcePack.Toml.Scalar
import ResourcePack.Toml.Table
import ResourcePack.Toml.Text

/-!
# Reading TOML

`Toml.parse?` reads a text as a document. Every line holds a header, a key with its
value, or nothing, and may end in a comment. Lists and tables in braces may be nested up
to 79 deep, and a key may have up to 79 parts.

Everywhere `fuel` is a number greater than that of the characters to come.
-/

namespace ResourcePack

namespace Toml

/-- The depth of nesting and the number of parts of a key that are too many. -/
def nestingLimit : Nat := 80

def isKeyChar (c : Char) : Bool := c.isAlphanum || c = '_' || c = '-'

/-- Read one part of a key. -/
def keyPart? (fuel : Nat) (input : List Char) : Option (String × List Char) :=
  match input with
  | '"' :: rest => lineText? '"' fuel [] rest
  | '\'' :: rest => lineText? '\'' fuel [] rest
  | _ =>
    let name := input.takeWhile isKeyChar
    if name.isEmpty then none else some (String.ofList name, input.dropWhile isKeyChar)

/-- Read the parts of a key, blanks around them and dots between; `count` bounds the
number of dots. -/
def keyParts? (fuel : Nat) : (count : Nat) → List Char → Option (List String × List Char)
  | 0, _ => none
  | count + 1, input => do
    let (part, rest) ← keyPart? fuel (skipBlanks input)
    match skipBlanks rest with
    | '.' :: rest =>
      let (parts, rest) ← keyParts? fuel count rest
      return (part :: parts, rest)
    | rest => return ([part], rest)

/-- Read a key: its last part, and the parts before that one. -/
def key? (fuel : Nat) (input : List Char) : Option (List String × String × List Char) := do
  let (parts, rest) ← keyParts? fuel (nestingLimit - 1) input
  return (parts.dropLast, ← parts.getLast?, rest)

/-- What follows a comment, if one starts here. -/
def skipComment (input : List Char) : List Char :=
  match input with
  | '#' :: rest => rest.dropWhile isPlain
  | _ => input

/-- Leave out blanks, comments and line breaks before an item or the end of a list. -/
def skipGap? : (fuel : Nat) → List Char → Option (List Char)
  | 0, _ => none
  | fuel + 1, input =>
    match skipBlanks input with
    | '#' :: rest =>
      match newline? (rest.dropWhile isPlain) with
      | some rest => skipGap? fuel rest
      | none => none
    | rest =>
      match newline? rest with
      | some rest => skipGap? fuel rest
      | none => some rest

mutual

/-- Read a value inside `depth` lists and tables in braces. -/
def value? : (fuel depth : Nat) → List Char → Option (Document × List Char)
  | 0, _, _ => none
  | fuel + 1, depth, input =>
    match input with
    | '"' :: _ | '\'' :: _ => (text? fuel input).map fun (value, rest) => (.str value, rest)
    | '[' :: rest =>
      if nestingLimit ≤ depth + 1 then none else items? fuel (depth + 1) [] rest
    | '\x7b' :: rest =>
      if nestingLimit ≤ depth + 1 then none
      else
        match skipBlanks rest with
        | '\x7d' :: rest => some (.record [], rest)
        | rest => pairs? fuel (depth + 1) .empty rest
    | _ => scalar? input

/-- Read the items of a list up to its end. Those so far are in `done`, the last one
first. -/
def items? : (fuel depth : Nat) → List Document → List Char → Option (Document × List Char)
  | 0, _, _, _ => none
  | fuel + 1, depth, done, input =>
    match skipGap? fuel input with
    | none => none
    | some (']' :: rest) => some (.list done.reverse, rest)
    | some rest =>
      match value? fuel depth rest with
      | none => none
      | some (item, rest) =>
        match skipGap? fuel rest with
        | some (',' :: rest) => items? fuel depth (item :: done) rest
        | some (']' :: rest) => some (.list (item :: done).reverse, rest)
        | _ => none

/-- Read the keys and values of a table in braces up to its end. -/
def pairs? : (fuel depth : Nat) → Tree → List Char → Option (Document × List Char)
  | 0, _, _, _ => none
  | fuel + 1, depth, table, input =>
    match key? fuel input with
    | some (path, key, '=' :: rest) =>
      match value? fuel depth (skipBlanks rest) with
      | none => none
      | some (value, rest) =>
        match table.assign path key value with
        | none => none
        | some table =>
          match skipBlanks rest with
          | ',' :: rest => pairs? fuel depth table rest
          | '\x7d' :: rest => some (table.toDocument, rest)
          | _ => none
    | _ => none

end

/-- A text that is being read: the tables so far, and the header that the next keys
belong to. -/
structure State where
  root : Tree
  header : List String

namespace State

/-- Nothing has been read. -/
def start : State := ⟨.empty, []⟩

/-- A header in single brackets. -/
def openTable (state : State) (path : List String) (key : String) : Option State := do
  return ⟨← state.root.modify false (Tree.openMember key) path, path ++ [key]⟩

/-- A header in double brackets. -/
def openElement (state : State) (path : List String) (key : String) : Option State := do
  return ⟨← state.root.modify false (Tree.openElement key) path, path ++ [key]⟩

/-- A key and its value. -/
def assign (state : State) (path : List String) (key : String) (value : Document) :
    Option State := do
  return { state with root := ← state.root.modify false (Tree.assign path key value) state.header }

end State

/-- Read the header or the key and value at the start of a line. -/
def line? (fuel : Nat) (state : State) (input : List Char) : Option (State × List Char) :=
  match input with
  | '[' :: '[' :: rest =>
    match key? fuel rest with
    | some (path, key, ']' :: ']' :: rest) => (state.openElement path key).map (·, rest)
    | _ => none
  | '[' :: rest =>
    match key? fuel rest with
    | some (path, key, ']' :: rest) => (state.openTable path key).map (·, rest)
    | _ => none
  | _ =>
    match key? fuel input with
    | some (path, key, '=' :: rest) =>
      match value? (2 * fuel) 0 (skipBlanks rest) with
      | some (value, rest) => (state.assign path key value).map (·, rest)
      | none => none
    | _ => none

/-- Read lines up to the end of the text. -/
def lines? : (fuel : Nat) → State → List Char → Option State
  | 0, _, _ => none
  | fuel + 1, state, input =>
    let input := skipBlanks input
    let finished : Option (State × List Char) :=
      match input with
      | [] | '#' :: _ | '\n' :: _ | '\r' :: _ => some (state, input)
      | _ => line? (fuel + 1) state input
    match finished with
    | none => none
    | some (state, rest) =>
      match skipComment (skipBlanks rest) with
      | [] => some state
      | rest =>
        match newline? rest with
        | some rest => lines? fuel state rest
        | none => none

/-- The document that a text stands for. A byte order mark may come first. -/
def parse? (text : String) : Option Document :=
  let input := match text.toList with
    | '\uFEFF' :: rest => rest
    | input => input
  (lines? (input.length + 1) .start input).map (·.root.toDocument)

end Toml

end ResourcePack
