import ResourcePack.Command.Run
import ResourcePack.Proofs.Build.Drafts

/-!
# Building again

A build does not look where it writes. An input that lies where an output goes is lost, be
it the manifest itself. All other inputs keep their content however the build ends, and if
no input lies there, another build has nothing new to find: it ends with the same exit code
and leaves the same files.
-/

namespace ResourcePack

open FileSystem

namespace Collection

variable {S : Type} [Files (StateM S)] {look : S → Path → Except FileError Bytes}
  {codec : Codec} {state done : S}

end Collection

namespace Build

/-- The files that a build reads: the manifest, and what its collection depends on. -/
def inputs (manifest root : Path) (fs : FileSystem) : List Path :=
  match Collection.ofOutcome manifest root (fs.read manifest) with
  | .ok collection => manifest :: collection.dependencies
  | .error _ => [manifest]

/-- The exit code of a build that ends like this. -/
def exitCode : Except Error Report → UInt8
  | .ok _ => 0
  | .error cause => (Command.Failure.ofError cause).code

variable {codec : Codec} {manifest basename root : Path} {outputs : Outputs} {tool : Option Path}

variable {disk done : Disk}

end Build

end ResourcePack
