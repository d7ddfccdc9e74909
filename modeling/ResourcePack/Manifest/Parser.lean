import ResourcePack.Document.Json
import ResourcePack.Manifest.Document
import ResourcePack.Manifest.Error
import ResourcePack.Toml.Parser

/-!
# Reading manifests

A manifest is written in JSON or in TOML. Where a record is given as a list of its fields,
JSON refuses items that stand for no field, and TOML passes over them.
-/

namespace ResourcePack

namespace Manifest

def parseJson (text : String) : Except Error Manifest :=
  match (Json.parse? text).bind (ofDocument? .refused) with
  | some manifest => .ok manifest
  | none => .error .notJson

def parseToml (text : String) : Except Error Manifest :=
  match (Toml.parse? text).bind (ofDocument? .ignored) with
  | some manifest => .ok manifest
  | none => .error .notToml

/-- The manifest in the text of a file. A file whose extension is `toml` holds TOML, any
other one JSON. -/
def parse (path : Path) (text : String) : Except Error Manifest :=
  if path.extension? = some "toml" then parseToml text else parseJson text

end Manifest

end ResourcePack
