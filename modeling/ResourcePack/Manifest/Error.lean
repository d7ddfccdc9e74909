import ResourcePack.Files.Error
import ResourcePack.Path

/-!
# Why a manifest cannot be used
-/

namespace ResourcePack

namespace Manifest

/-- The cause of a failure to read or validate a manifest. -/
inductive Error where
  | file (path : Path) (cause : FileError)
  | notJson
  | notToml
  | missingPalette
  /-- Resources are counted from 1. -/
  | emptyName (index : Nat)
  | duplicateName (name : String)
  | unknownKind (resource kind : String)
  | missingField (resource kind field : String)
  | unknownReference (resource reference : String)
  deriving DecidableEq, Repr

namespace Error

def message : Error → String
  | .file path cause => s!"failed to read manifest file '{path.text}': {cause.message}"
  | .notJson | .notToml => "failed to parse manifest"
  | .missingPalette => "palette is not set"
  | .emptyName index => s!"resource #{index} has an empty name"
  | .duplicateName name => s!"duplicate resource name '{name}'"
  | .unknownKind resource kind => s!"resource '{resource}': unknown input type '{kind}'"
  | .missingField resource kind field =>
    s!"resource '{resource}': input type '{kind}' requires field '{field}'"
  | .unknownReference resource reference =>
    s!"resource '{resource}': reference '{reference}' is not declared"

end Error

end Manifest

end ResourcePack
