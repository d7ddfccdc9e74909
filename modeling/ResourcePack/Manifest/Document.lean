import ResourcePack.Document.Basic
import ResourcePack.Manifest.Basic

/-!
# Manifests as documents

`ofDocument?` finds a manifest in a document: its fields may come in any order and among
others, which are passed over. A field that may be missing may also be null, except for
the references. Numbers have to be integers that fit their fields. Whether a list of fields
may be longer than the fields is a matter of the notation the document was read from.
`toDocument` writes a manifest down, leaving out what is not set.
-/

namespace ResourcePack

namespace Manifest

def text? : Document → Option String
  | .text value => value
  | _ => none

def int32? : Document → Option Int32
  | .integer n => if -0x80000000 ≤ n ∧ n ≤ 0x7FFFFFFF then some (Int32.ofInt n) else none
  | _ => none

def byte? : Document → Option UInt8
  | .integer n => if 0 ≤ n ∧ n < 256 then some (UInt8.ofNat n.toNat) else none
  | _ => none

/-- A field that has to be there. -/
def required? {α : Type} (read : Document → Option α) (field : Option Document) : Option α :=
  field.bind read

/-- A field that may be missing or null. -/
def optional? {α : Type} (read : Document → Option α) : Option Document → Option (Option α)
  | none | some .null => some none
  | some document => (read document).map some

def list? {α : Type} (read : Document → Option α) : Document → Option (List α)
  | .list items => items.mapM read
  | _ => none

/-- The name under which a date counts as a reference. -/
def dateName : String := "$__toml_private_datetime"

/-- References in a document. Of two with one name the later one counts. A date in their
place is a reference to its spelling. -/
def references? : Document → Option References
  | .date spelling => some (.ofList [(dateName, spelling)])
  | .record members => do
    return .ofList (← members.mapM fun (key, value) => do return (← key, ← text? value))
  | _ => none

namespace Input

def fields : List String := ["type", "file", "ref", "id", "method", "bitdepth"]

def ofDocument? (surplus : Document.Surplus) (document : Document) : Option Input := do
  match ← document.fields? surplus fields with
  | [kind, file, reference, id, method, depth] =>
    return {
      kind := ← required? text? kind
      file := ← optional? text? file
      reference := ← optional? text? reference
      id := ← optional? int32? id
      method := ← optional? text? method
      depth := ← optional? byte? depth }
  | _ => none

def toDocument (input : Input) : Document :=
  .object ([("type", .str input.kind)] ++
    (input.file.map ("file", .str ·)).toList ++
    (input.reference.map ("ref", .str ·)).toList ++
    (input.id.map ("id", .integer ·.toInt)).toList ++
    (input.method.map ("method", .str ·)).toList ++
    (input.depth.map ("bitdepth", .nat ·.toNat)).toList)

end Input

namespace Resource

def fields : List String := ["name", "input"]

def ofDocument? (surplus : Document.Surplus) (document : Document) : Option Resource := do
  match ← document.fields? surplus fields with
  | [name, input] =>
    return {
      name := ← required? text? name
      input := ← required? (Input.ofDocument? surplus) input }
  | _ => none

def toDocument (resource : Resource) : Document :=
  .object [("name", .str resource.name), ("input", resource.input.toDocument)]

end Resource

def fields : List String := ["references", "palette", "resources"]

def ofDocument? (surplus : Document.Surplus) (document : Document) : Option Manifest := do
  match ← document.fields? surplus fields with
  | [references, palette, resources] =>
    return {
      references := ← (references.mapM references?).map (·.getD .empty)
      palette := ← optional? text? palette
      resources := ← required? (list? (Resource.ofDocument? surplus)) resources }
  | _ => none

def toDocument (manifest : Manifest) : Document :=
  .object ([("references",
      .object (manifest.references.entries.map fun (name, path) => (name, .str path)))] ++
    (manifest.palette.map ("palette", .str ·)).toList ++
    [("resources", .list (manifest.resources.map Resource.toDocument))])

end Manifest

end ResourcePack
