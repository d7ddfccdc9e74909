import ResourcePack.Manifest.Basic
import ResourcePack.Manifest.Error
import ResourcePack.Text.Blank

/-!
# Validation of manifests

A manifest is sound if its palette is set, its resources have different names and every
input has the fields its kind needs. Blanks around the palette and around names do not
count. Resources are checked in order, and the first defect is reported: an empty name, a
name that was used before, or a defect of the input.
-/

namespace ResourcePack

namespace Manifest

/-- Where the bytes of a resource come from. Paths are relative to the root of the
build. -/
inductive Descriptor where
  /-- A file as it is. -/
  | file (path : String)
  /-- A resource of another pack. -/
  | extract (pack : String) (index : Int32)
  /-- A picture to be reduced to the palette. -/
  | image (path : String) (method : Option String) (depth : Option UInt8)
  deriving DecidableEq, Repr

/-- A resource of a sound manifest. -/
structure Declared where
  name : String
  descriptor : Descriptor
  deriving DecidableEq, Repr

/-- A manifest that has been validated. The resource at position `n` gets index
`n + 1`. -/
structure Validated where
  references : References
  palette : String
  resources : List Declared
  deriving DecidableEq, Repr

namespace Input

/-- A field that the kind of input needs. -/
def need {α : Type} (input : Input) (resource field : String) : Option α → Except Error α
  | some value => .ok value
  | none => .error (.missingField resource input.kind field)

/-- What an input of a known kind describes. Fields that its kind does not use are not
looked at. -/
def descriptor (input : Input) (resource : String) (references : References) :
    Except Error Descriptor :=
  if input.kind = "file" then do
    return .file (← input.need resource "file" input.file)
  else if input.kind = "resource" then do
    let reference ← input.need resource "ref" input.reference
    let index ← input.need resource "id" input.id
    match references.find? reference with
    | some pack => return .extract pack index
    | none => throw (.unknownReference resource reference)
  else if input.kind = "image" then do
    return .image (← input.need resource "file" input.file) input.method input.depth
  else .error (.unknownKind resource input.kind)

end Input

/-- Validate resources of which the first one is at position `position` and those before
it have the names in `used`. -/
def declare (references : References) (position : Nat) (used : List String) :
    List Resource → Except Error (List Declared)
  | [] => .ok []
  | resource :: rest => do
    let name := Text.trim resource.name
    if name = "" then throw (.emptyName (position + 1))
    if name ∈ used then throw (.duplicateName name)
    let descriptor ← resource.input.descriptor name references
    return { name, descriptor } :: (← declare references (position + 1) (name :: used) rest)

/-- The palette, if it is set to more than blanks. -/
def palette? (manifest : Manifest) : Option String :=
  (manifest.palette.map Text.trim).filter (· ≠ "")

/-- Validate a manifest. The palette is needed even if no resource is a picture. -/
def validate (manifest : Manifest) : Except Error Validated :=
  match manifest.palette? with
  | none => .error .missingPalette
  | some palette => do
    let references := manifest.references
    return { references, palette, resources := ← declare references 0 [] manifest.resources }

end Manifest

end ResourcePack
