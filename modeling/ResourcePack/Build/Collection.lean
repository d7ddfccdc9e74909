import ResourcePack.Build.Source
import ResourcePack.Checksum
import ResourcePack.Manifest.Parser
import ResourcePack.Text.Utf8

/-!
# Collections

A collection is what a manifest stands for: an ordered list of names, each with a source.
Loading one reads the manifest alone. Resolving it runs the sources in order up to the
first that fails, and a failure names the entry it comes from.
-/

namespace ResourcePack

open Build (Error)

/-- A named source. -/
structure Entry where
  name : String
  source : Source
  deriving DecidableEq, Repr

/-- A resource whose bytes are there. -/
structure Resolved where
  /-- The position in the manifest, counted from 1. An index is kept in 32 bits, so that a
  collection is taken to have fewer than `2 ^ 32` entries. -/
  index : Nat
  name : String
  bytes : Bytes
  provenance : String
  dependencies : List Path
  deriving DecidableEq, Repr

namespace Resolved

def size (resource : Resolved) : Nat := resource.bytes.length

def checksum (resource : Resolved) : UInt32 := Checksum.ofBytes resource.bytes

end Resolved

/-- The entries of a manifest. -/
structure Collection where
  manifestPath : Path
  family : Family
  entries : List Entry
  deriving DecidableEq, Repr

namespace Collection

/-- Name the resource at a position in a failure. -/
def naming {α : Type} (position : Nat) (name : String) : Except Error α → Except Error α :=
  Except.mapError (.resource (position + 1) name)

/-- The entries for declared resources of which the first one is at `position`. -/
def entriesFrom (root : Path) (family : Family) (position : Nat) :
    List Manifest.Declared → Except Error (List Entry)
  | [] => .ok []
  | declared :: rest => do
    let source ← naming position declared.name
      ((Source.ofDescriptor root family declared.descriptor).mapError .picture)
    return { name := declared.name, source } :: (← entriesFrom root family (position + 1) rest)

/-- The collection of a manifest. It has to be sound, its palette known, and the settings
of its pictures valid. -/
def ofManifest (manifest : Manifest) (manifestPath root : Path) : Except Error Collection := do
  let validated ← manifest.validate.mapError .manifest
  let family ← (Family.parse validated.palette).mapError .picture
  return { manifestPath, family, entries := ← entriesFrom root family 0 validated.resources }

/-- The manifest in a file, from the outcome of reading it. -/
def manifestOf (path : Path) : Except FileError Bytes → Except Manifest.Error Manifest
  | .error cause => .error (.file path cause)
  | .ok content =>
    match Utf8.decode? content with
    | none => .error (.file path .notText)
    | some text => Manifest.parse path text

/-- The collection of a manifest file, from the outcome of reading it. -/
def ofOutcome (manifestPath root : Path) (outcome : Except FileError Bytes) :
    Except Error Collection := do
  ofManifest (← (manifestOf manifestPath outcome).mapError .manifest) manifestPath root

/-- Load the collection of a manifest file. Paths in it are taken from `root`. -/
def load {m : Type → Type} [Monad m] [Files m] (manifestPath root : Path) :
    ExceptT Error m Collection :=
  ExceptT.mk (ofOutcome manifestPath root <$> Files.read manifestPath)

/-- Leave out paths that are the same, by components, as an earlier one. -/
def distinct (paths : List Path) : List Path :=
  paths.foldl (fun seen p => if seen.any (Path.Same p) then seen else seen ++ [p]) []

/-- Every file the sources read, as first spelled, in the order of first use. -/
def dependencies (collection : Collection) : List Path :=
  distinct (collection.entries.flatMap (·.source.dependencies))

/-- The resource of an entry, once its bytes are there. -/
def resolved (position : Nat) (entry : Entry) (bytes : Bytes) : Resolved where
  index := position + 1
  name := entry.name
  bytes := bytes
  provenance := entry.source.provenance
  dependencies := entry.source.dependencies

variable {m : Type → Type} [Monad m] [Files m]

def resolveEntry (codec : Codec) (position : Nat) (entry : Entry) : ExceptT Error m Resolved :=
  ExceptT.mk do
    return naming position entry.name ((← (entry.source.bytes codec).run).map
      (resolved position entry))

/-- Resolve entries of which the first one is at `position`. -/
def resolveFrom (codec : Codec) (position : Nat) : List Entry → ExceptT Error m (List Resolved)
  | [] => return []
  | entry :: rest => do
    let first ← resolveEntry codec position entry
    return first :: (← resolveFrom codec (position + 1) rest)

/-- Run all sources in order. -/
def resolve (codec : Codec) (collection : Collection) : ExceptT Error m (List Resolved) :=
  resolveFrom codec 0 collection.entries

end Collection

end ResourcePack
