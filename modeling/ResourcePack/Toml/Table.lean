import ResourcePack.Document.Basic

/-!
# Tables of TOML

While a text is read, its tables know how they came about. A table is implicit if it is
there only because something inside it was named, and dotted if that was by a dotted key.
A key may be given once. A table may be opened by one header, even after tables inside
it, but not if dotted keys made it; and dotted keys may add to a table only if dotted keys
made it.
-/

namespace ResourcePack

namespace Toml

/-- A part of a table under construction. -/
inductive Tree where
  /-- A value that is complete. -/
  | value (document : Document)
  /-- A table, how it came about, and its members, the last one first. -/
  | table (implicit dotted : Bool) (members : List (String × Tree))
  /-- The tables that headers in double brackets have opened so far, the last one
  first. -/
  | tables (elements : List Tree)

namespace Tree

def empty : Tree := .table false false []

mutual

def toDocument : Tree → Document
  | .value document => document
  | .table _ _ members => .record (membersToDocument members).reverse
  | .tables elements => .list (elementsToDocument elements).reverse

def membersToDocument : List (String × Tree) → List (Option String × Document)
  | [] => []
  | (key, tree) :: rest => (some key, tree.toDocument) :: membersToDocument rest

def elementsToDocument : List Tree → List Document
  | [] => []
  | tree :: rest => tree.toDocument :: elementsToDocument rest

end

/-- Put a tree under a key, in place of the one that is there. -/
def replace (key : String) (tree : Tree) : List (String × Tree) → List (String × Tree)
  | [] => []
  | (k, t) :: rest => if k = key then (key, tree) :: rest else (k, t) :: replace key tree rest

/-- Put a tree under a key, in place of the one that is there or after all others. -/
def put (key : String) (tree : Tree) (members : List (String × Tree)) : List (String × Tree) :=
  if (members.lookup key).isSome then replace key tree members else (key, tree) :: members

/-- Change the table that `path` leads to. Tables missing on the way are made, and of
tables in double brackets the last one is meant. Dotted keys lead into tables only if
something else made them implicitly. -/
def modify (dotted : Bool) (change : Tree → Option Tree) : (path : List String) → Tree → Option Tree
  | [], tree => change tree
  | key :: path, .table implicitly dottedly members => do
    let descend (tree : Tree) : Option Tree := modify dotted change path tree
    let child ←
      match members.lookup key with
      | none => descend (.table true dotted [])
      | some (.value _) => none
      | some (.tables []) => none
      | some (.tables (last :: before)) =>
        (descend last).map fun last => .tables (last :: before)
      | some (.table implicitly dottedly members) =>
        if dotted && !implicitly then none
        else descend (.table implicitly dottedly members)
    return .table implicitly dottedly (put key child members)
  | _ :: _, _ => none

/-- Add a member to the table that the last key stands in. -/
def addMember (underDotted : Bool) (key : String) (document : Document) : Tree → Option Tree
  | .table implicitly dotted members =>
    if dotted = underDotted ∧ (members.lookup key).isNone then
      some (.table implicitly dotted ((key, .value document) :: members))
    else none
  | _ => none

/-- Set a key, all but the last part of which name tables. -/
def assign (path : List String) (key : String) (document : Document) (tree : Tree) :
    Option Tree :=
  tree.modify true (addMember (!path.isEmpty) key document) path

/-- Open a table in the one that holds it. -/
def openMember (key : String) : Tree → Option Tree
  | .table implicitly dotted members =>
    match members.lookup key with
    | none => some (.table implicitly dotted ((key, empty) :: members))
    | some (.table true false inner) =>
      some (.table implicitly dotted (put key (.table false false inner) members))
    | _ => none
  | _ => none

/-- Open a further table under a key for several. -/
def openElement (key : String) : Tree → Option Tree
  | .table implicitly dotted members =>
    match members.lookup key with
    | none => some (.table implicitly dotted ((key, .tables [empty]) :: members))
    | some (.tables elements) =>
      some (.table implicitly dotted (put key (.tables (empty :: elements)) members))
    | _ => none
  | _ => none

end Tree

end Toml

end ResourcePack
