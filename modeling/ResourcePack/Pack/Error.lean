import ResourcePack.Files.Error
import ResourcePack.Path

/-!
# Why a pack cannot be made or read
-/

namespace ResourcePack

namespace Pack

/-- The cause of a failure to lay out, write, open or search a pack. -/
inductive Error where
  /-- The system refused to read or write the file. -/
  | file (path : Path) (cause : FileError)
  /-- No record stores this index. -/
  | notFound (path : Path) (index : Int32)
  /-- There are more resources than records. -/
  | tableFull (count capacity : Nat)
  /-- This many bytes of data cannot be addressed. -/
  | tooLarge (size : Nat)
  /-- The file ends before something it promises. -/
  | truncated (path : Path) (detail : String)
  deriving DecidableEq, Repr

namespace Error

def message : Error → String
  | .file path cause => s!"pack I/O error on '{path.text}': {cause.message}"
  | .notFound path index => s!"res {index} not found in pack '{path.text}'"
  | .tableFull count capacity =>
    s!"too many resources: {count} exceeds table capacity of {capacity}"
  | .tooLarge size => s!"pack data exceeds the 32-bit offset range ({size} bytes)"
  | .truncated path detail => s!"pack '{path.text}' is truncated: {detail}"

end Error

/-! The things a file can be too short for. -/

/-- A file of this length has no room for the header. -/
def missingHeader (length : Nat) : String :=
  s!"{length} bytes is too short for the header"

/-- The file ends inside or before this record. -/
def missingRecord (slot count : Nat) : String :=
  s!"table record {slot} of {count} is missing"

/-- The record points outside the file. -/
def missingData (index offset size : Int32) : String :=
  s!"res {index} claims offset {offset} size {size} beyond end of file"

end Pack

end ResourcePack
