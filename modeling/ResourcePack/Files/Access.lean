import ResourcePack.Files.System

/-!
# Access to files

`Files m` lets a computation in `m` read and write files without fixing where they are.
`StateM FileSystem` is the instance with a tree of files as its state; a failed operation
leaves the tree as it is.
-/

namespace ResourcePack

/-- The file operations that a computation in `m` may use. -/
class Files (m : Type → Type) where
  /-- The whole content of a file. -/
  read : Path → m (Except FileError Bytes)
  /-- Create a file, or replace the content of one. -/
  write : Path → Bytes → m (Except FileError Unit)
  /-- Create one directory. -/
  makeDirectory : Path → m (Except FileError Unit)
  /-- Whether a path leads to a directory. -/
  isDirectory : Path → m Bool

namespace FileSystem

/-- Keep the tree that a successful change gives. -/
def commit (fs : FileSystem) : Except FileError FileSystem → Except FileError Unit × FileSystem
  | .ok changed => (.ok (), changed)
  | .error cause => (.error cause, fs)

instance : Files (StateM FileSystem) where
  read path := fun fs => (fs.read path, fs)
  write path content := fun fs => fs.commit (fs.write path content)
  makeDirectory path := fun fs => fs.commit (fs.makeDirectory path)
  isDirectory path := fun fs => (fs.isDirectory path, fs)

/-- Run a computation on a tree of files: its outcome, and the tree it leaves. -/
def run {ε α : Type} (fs : FileSystem) (action : ExceptT ε (StateM FileSystem) α) :
    Except ε α × FileSystem :=
  StateT.run (ExceptT.run action) fs

end FileSystem

namespace Files

variable {m : Type → Type} [Monad m] [Files m]

/-- Make light of a failure to create a directory that is there. -/
def unlessThere (path : Path) (cause : FileError) : m (Except FileError Unit) := do
  if ← isDirectory path then return .ok () else return .error cause

/-- Create a directory and those of the paths in `above`, the nearest one first, that are
missing. -/
def makeDirectoryUnder (path : Path) (above : List Path) : m (Except FileError Unit) :=
  if path.text = "" then return .ok ()
  else do
    match ← makeDirectory path, above with
    | .ok (), _ => return .ok ()
    | .error .notFound, [] => return .error .notFound
    | .error .notFound, parent :: rest =>
      match ← makeDirectoryUnder parent rest with
      | .error cause => return .error cause
      | .ok () =>
        match ← makeDirectory path with
        | .ok () => return .ok ()
        | .error cause => unlessThere path cause
    | .error cause, _ => unlessThere path cause

/-- Create a directory and all directories above it that are missing. A directory that is
there already is fine. -/
def makeDirectories (path : Path) : m (Except FileError Unit) :=
  makeDirectoryUnder path path.above

end Files

end ResourcePack
