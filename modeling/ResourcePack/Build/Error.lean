import ResourcePack.Manifest.Error
import ResourcePack.Pack.Error
import ResourcePack.Picture.Error

/-!
# Why a build fails

A build fails with the cause of one of its parts. A failure that concerns one resource
names it, whatever the cause.
-/

namespace ResourcePack

namespace Build

/-- The cause of a failed build. -/
inductive Error where
  | manifest (cause : Manifest.Error)
  | pack (cause : Pack.Error)
  | picture (cause : Picture.Error)
  /-- A resource, counted from 1, cannot be had. -/
  | resource (index : Nat) (name : String) (cause : Error)
  | read (path : Path) (cause : FileError)
  | write (path : Path) (cause : FileError)
  deriving DecidableEq, Repr

/-- What kind of thing is at fault. -/
inductive Fault where
  /-- The manifest or a setting. -/
  | configuration
  /-- An index that a pack does not have. -/
  | notFound
  /-- A file that cannot be read, understood or written. -/
  | io
  deriving DecidableEq, Repr

namespace Error

def message : Error → String
  | .manifest cause => s!"manifest error: {cause.message}"
  | .pack cause => s!"pack error: {cause.message}"
  | .picture cause => s!"image error: {cause.message}"
  | .resource index name cause => s!"resource {index} ({name}): {cause.message}"
  | .read path cause => s!"failed to read '{path.text}': {cause.message}"
  | .write path cause => s!"failed to write '{path.text}': {cause.message}"

/-- What is at fault. The resource concerned makes no difference. -/
def fault : Error → Fault
  | .manifest (.file _ _) => .io
  | .manifest _ => .configuration
  | .pack (.tableFull _ _) | .pack (.tooLarge _) => .configuration
  | .pack (.notFound _ _) => .notFound
  | .pack (.file _ _) | .pack (.truncated _ _) => .io
  | .picture cause => if cause.isConfiguration then .configuration else .io
  | .resource _ _ cause => cause.fault
  | .read _ _ | .write _ _ => .io

/-- The cause of a failure that concerns no particular resource. -/
def root : Error → Error
  | .resource _ _ cause => cause.root
  | cause => cause

@[simp] theorem fault_resource (index : Nat) (name : String) (cause : Error) :
    (Error.resource index name cause).fault = cause.fault := rfl

@[simp] theorem fault_root (cause : Error) : cause.root.fault = cause.fault := by
  induction cause with
  | resource index name cause ih => simpa [root] using ih
  | _ => rfl

end Error

end Build

end ResourcePack
