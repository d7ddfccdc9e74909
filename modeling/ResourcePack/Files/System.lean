import ResourcePack.Bytes
import ResourcePack.Files.Error
import ResourcePack.Path
import ResourcePack.Text.Utf8

/-!
# A tree of files

A `FileSystem` maps positions, the lists of names from the root down, to files and
directories, and has a current directory that relative paths start from. `read`, `write`
and `makeDirectory` follow the segments of a path one by one: every place on the way
has to be a directory, `..` leads back to the place it was reached from, and a path that
ends in a slash asks for a directory.
-/

namespace ResourcePack

inductive Node where
  | file (content : Bytes)
  | directory
  deriving DecidableEq, Repr

/-- Files and directories by position, and the position relative paths start from. -/
structure FileSystem where
  nodes : List (List String × Node)
  current : List String
  deriving DecidableEq, Repr

namespace FileSystem

/-- A system with no files, all of whose directories lead to `current`. -/
def empty (current : List String) : FileSystem where
  nodes := (List.range current.length).map fun n => (current.take (n + 1), .directory)
  current := current

/-- What stands at a position. The root is always there. -/
def node? (fs : FileSystem) (position : List String) : Option Node :=
  if position = [] then some .directory else fs.nodes.lookup position

/-- Put a node at a position, in place of what was there. -/
def set (fs : FileSystem) (position : List String) (node : Node) : FileSystem :=
  { fs with nodes := (position, node) :: fs.nodes.filter (·.1 ≠ position) }

def erase (fs : FileSystem) (position : List String) : FileSystem :=
  { fs with nodes := fs.nodes.filter (·.1 ≠ position) }

def nameLimit : Nat := 255

def pathLimit : Nat := 4096

/-- Refuse positions that are not directories. -/
def checkDirectory (fs : FileSystem) (position : List String) : Except FileError Unit :=
  match fs.node? position with
  | some .directory => .ok ()
  | some (.file _) => .error .notDirectory
  | none => .error .notFound

/-- The position a segment leads to from a directory. -/
def step (position : List String) (segment : String) : Except FileError (List String) :=
  if segment = "" ∨ segment = "." then .ok position
  else if segment = ".." then .ok position.dropLast
  else if nameLimit < (Utf8.encode segment).length then .error .nameTooLong
  else .ok (position ++ [segment])

/-- The position that segments lead to. The last one need not be there. -/
def walk (fs : FileSystem) (position : List String) :
    List String → Except FileError (List String)
  | [] => .ok position
  | segment :: rest => do
    fs.checkDirectory position
    fs.walk (← step position segment) rest

/-- The place a path starts from and its segments. Texts the system takes for no path at
all are refused. -/
def start (fs : FileSystem) (path : Path) : Except FileError (List String × List String) :=
  if path.text = "" then .error .notFound
  else if '\x00' ∈ path.text.toList then .error .containsNul
  else if pathLimit ≤ (Utf8.encode path.text).length then .error .nameTooLong
  else .ok (if path.isAbsolute then [] else fs.current, path.segments)

def find (fs : FileSystem) (path : Path) : Except FileError Node := do
  let (origin, segments) ← fs.start path
  match fs.node? (← fs.walk origin segments) with
  | some node => .ok node
  | none => .error .notFound

/-- The content of the file a path leads to. -/
def read (fs : FileSystem) (path : Path) : Except FileError Bytes := do
  match ← fs.find path with
  | .file content => .ok content
  | .directory => .error .isDirectory

/-- The last segment that is not empty and the segments before it. -/
def splitLast (segments : List String) : Option (List String × String) :=
  let named := (segments.reverse.dropWhile (· = "")).reverse
  named.getLast?.map (named.dropLast, ·)

/-- The position at which a path creates a file or finds one to replace. No file can be
created under a name followed by a slash, nor under `.` or `..`. -/
def target (fs : FileSystem) (path : Path) : Except FileError (List String) := do
  let (origin, segments) ← fs.start path
  match splitLast segments with
  | none => .error .isDirectory
  | some (before, name) =>
    let parent ← fs.walk origin before
    fs.checkDirectory parent
    if name = "." ∨ name = ".." ∨ segments.getLast? = some "" then .error .isDirectory
    else
      let position ← step parent name
      match fs.node? position with
      | some .directory => .error .isDirectory
      | _ => .ok position

/-- Give the file a path leads to a new content, creating it if its directory is there. -/
def write (fs : FileSystem) (path : Path) (content : Bytes) : Except FileError FileSystem := do
  return fs.set (← fs.target path) (.file content)

def remove (fs : FileSystem) (path : Path) : Except FileError FileSystem := do
  match ← fs.find path with
  | .directory => .error .isDirectory
  | .file _ => return fs.erase (← fs.target path)

def isDirectory (fs : FileSystem) (path : Path) : Bool :=
  match fs.find path with
  | .ok .directory => true
  | _ => false

/-- Create one directory in a directory that is there. -/
def makeDirectory (fs : FileSystem) (path : Path) : Except FileError FileSystem := do
  let (origin, segments) ← fs.start path
  match splitLast segments with
  | none => .error .exists
  | some (before, name) =>
    let parent ← fs.walk origin before
    fs.checkDirectory parent
    if name = "." ∨ name = ".." then .error .exists
    else
      let position ← step parent name
      match fs.node? position with
      | some _ => .error .exists
      | none => .ok (fs.set position .directory)

end FileSystem

end ResourcePack
