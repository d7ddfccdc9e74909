import ResourcePack.Command.Run

/-!
# The program

Runs a command line on the files of the system. Texts go to standard output; messages go
to standard error.
-/

namespace ResourcePack

namespace FileError

/-- The number of a cause. Some calls of the system report it negated. -/
def magnitude (code : UInt32) : Nat :=
  if code < 0x80000000 then code.toNat else (-code).toNat

/-- The cause of a failure that the system reports. -/
def ofSystem : IO.Error → FileError
  | .noFileOrDirectory _ code _ | .alreadyExists _ code _ | .inappropriateType _ code _
  | .permissionDenied _ code _ | .invalidArgument _ code _ | .resourceExhausted _ code _ =>
    ofCode (magnitude code)
  | .otherError code _ => ofCode (magnitude code)
  | _ => .system 5

end FileError

/-- Use the outcome of an action of the system. -/
def observe {α : Type} (action : IO α) : IO (Except FileError α) := do
  try
    return .ok (← action)
  catch cause =>
    return .error (.ofSystem cause)

instance : Files IO where
  read path := observe do return (← IO.FS.readBinFile path.text).toList
  write path content := observe (IO.FS.writeBinFile path.text ⟨content.toArray⟩)
  makeDirectory path := observe (IO.FS.createDir path.text)
  isDirectory path := do
    match ← observe (IO.FS.realPath path.text) with
    | .ok place => place.isDir
    | .error _ => return false

namespace Command

/-- Say how a call ended, and give its exit code. -/
def report : Outcome → IO UInt32
  | .success output => do
    IO.print output
    return 0
  | .failure failure => do
    IO.eprintln s!"error: {failure.message}"
    return failure.code.toUInt32
  | .misuse => do
    IO.eprint help
    return 2

end Command

end ResourcePack

def main (arguments : List String) : IO UInt32 := do
  let tool := (← IO.appPath).toString
  ResourcePack.Command.report (← ResourcePack.Command.execute (some ⟨tool⟩) arguments)
