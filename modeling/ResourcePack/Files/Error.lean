import ResourcePack.Files.Wording

/-!
# Why a file operation fails

The causes that matter to the program by name, and all others by the system's number.
-/

namespace ResourcePack

/-- The cause of a failed file operation. -/
inductive FileError where
  | notFound
  | exists
  | notDirectory
  | isDirectory
  | nameTooLong
  /-- The path holds a character that ends a path for the system. -/
  | containsNul
  /-- The bytes were read but are not text. -/
  | notText
  /-- Any other cause, by the system's number. -/
  | system (code : Int)
  deriving DecidableEq, Repr

namespace FileError

/-- The wording of a cause that has a number. -/
def numbered (code : Int) : String :=
  s!"{ErrorCode.wording code} (os error {code})"

def message : FileError → String
  | .notFound => numbered 2
  | .exists => numbered 17
  | .notDirectory => numbered 20
  | .isDirectory => numbered 21
  | .nameTooLong => numbered 36
  | .containsNul => "file name contained an unexpected NUL byte"
  | .notText => "stream did not contain valid UTF-8"
  | .system code => numbered code

def ofCode : Int → FileError
  | 2 => .notFound
  | 17 => .exists
  | 20 => .notDirectory
  | 21 => .isDirectory
  | 36 => .nameTooLong
  | code => .system code

theorem message_ofCode (code : Int) : (ofCode code).message = numbered code := by
  unfold ofCode
  split <;> rfl

end FileError

end ResourcePack
