import ResourcePack.Build.Collection
import ResourcePack.Build.MakeRules
import ResourcePack.Build.SymbolHeader
import ResourcePack.Pack.Image

/-!
# Building

A build loads a manifest, resolves its collection and writes up to three files next to
each other: the pack, the header and the rules for make, in this order. Nothing is
written before everything is resolved, and the rules alone need nothing to be resolved.
-/

namespace ResourcePack

namespace Build

structure Outputs where
  pack : Bool
  header : Bool
  makeRules : Bool
  deriving DecidableEq, Repr

namespace Outputs

/-- The files asked for, or all of them if none is. -/
def select (pack header makeRules : Bool) : Outputs :=
  if pack || header || makeRules then { pack, header, makeRules }
  else { pack := true, header := true, makeRules := true }

end Outputs

/-- A file that was written, and the number of its bytes where that is reported. -/
structure Written where
  path : Path
  size : Option Nat
  deriving DecidableEq, Repr

structure Report where
  resources : List Resolved
  written : List Written
  deriving DecidableEq, Repr

variable {m : Type → Type} [Monad m] [Files m]

def writeText (path : Path) (text : String) : ExceptT Error m Written :=
  ExceptT.mk do
    match ← Files.write path (Utf8.encode text) with
    | .ok () => return .ok { path, size := none }
    | .error cause => return .error (.write path cause)

def writePack (path : Path) (resources : List Resolved) : ExceptT Error m Written :=
  ExceptT.mk do
    match Pack.assemble (resources.map Resolved.bytes) with
    | .error cause => return .error (.pack cause)
    | .ok image =>
      let content := image.toBytes
      match ← Files.write path content with
      | .ok () => return .ok { path, size := some content.length }
      | .error cause => return .error (.pack (.file path cause))

def writeHeader (path : Path) (resources : List Resolved) : ExceptT Error m Written :=
  writeText path (SymbolHeader.render resources)

def writeMakeRules (path : Path) (rules : MakeRules) : ExceptT Error m Written :=
  writeText path rules.render

def optionally {α : Type} (asked : Bool) (action : ExceptT Error m α) : ExceptT Error m (List α) :=
  if asked then return [← action] else return []

/-- Build the outputs of a manifest. Their names are `basename` with three endings. -/
def run (codec : Codec) (manifest basename root : Path) (outputs : Outputs)
    (tool : Option Path) : ExceptT Error m Report := do
  let collection ← Collection.load manifest root
  let pack := basename.append ".pbpack"
  let header := basename.append ".h"
  let rules : MakeRules :=
    { pack, header, manifest, tool, dependencies := collection.dependencies }
  let resources ←
    if outputs.pack || outputs.header then collection.resolve codec else pure []
  let packWritten ← optionally outputs.pack (writePack pack resources)
  let headerWritten ← optionally outputs.header (writeHeader header resources)
  let rulesWritten ← optionally outputs.makeRules (writeMakeRules (basename.append ".d") rules)
  return { resources, written := packWritten ++ headerWritten ++ rulesWritten }

end Build

end ResourcePack
