import ResourcePack.Command.Manual
import ResourcePack.Document.Printer

/-!
# Running commands

A command reads and writes files and ends with a text to print, or with a message and an
exit code that tells what was at fault: 2 for the manifest, a setting or the command line
itself, 3 for a missing resource, and 4 for a file.
-/

namespace ResourcePack

namespace Command

structure Failure where
  code : UInt8
  message : String
  deriving DecidableEq, Repr

def exitCode : Build.Fault → UInt8
  | .configuration => 2
  | .notFound => 3
  | .io => 4

namespace Failure

def ofError (cause : Build.Error) : Failure := ⟨exitCode cause.fault, cause.message⟩

def ofFile (action : String) (path : Path) (cause : FileError) : Failure :=
  ⟨exitCode .io, s!"failed to {action} '{path.text}': {cause.message}"⟩

end Failure

/-- A checksum as eight hexadecimal digits. -/
def hex (value : UInt32) : String :=
  let digits := (Nat.toDigits 16 value.toNat).map Char.toUpper
  "0x" ++ String.ofList (List.replicate (8 - digits.length) '0' ++ digits)

/-- Fill up a text with blanks behind it. -/
def padded (width : Nat) (text : String) : String :=
  text ++ String.ofList (List.replicate (width - text.length) ' ')

/-- A document on lines of its own. -/
def jsonText (document : Document) : String := document.pretty ++ "\n"

/-! ## Reports -/

def resourceDocument (resource : Resolved) : Document :=
  .object [("index", .nat resource.index), ("name", .str resource.name),
    ("size", .nat resource.size), ("crc32", .nat resource.checksum.toNat),
    ("source", .str resource.provenance)]

def writtenDocument (written : Build.Written) : Document :=
  .object (("path", .str written.path.text) :: (written.size.map ("bytes", .nat ·)).toList)

def reportDocument (report : Build.Report) : Document :=
  .object [("resources", .list (report.resources.map resourceDocument)),
    ("written", .list (report.written.map writtenDocument))]

def writtenLine (written : Build.Written) : String :=
  match written.size with
  | some size => s!"wrote {written.path.text} ({size} bytes)\n"
  | none => s!"wrote {written.path.text}\n"

def buildText (json : Bool) (report : Build.Report) : String :=
  if json then jsonText (reportDocument report)
  else String.join (report.written.map writtenLine)

def convertText (json : Bool) (input output : Path) (options : ConvertOptions) (size : Nat) :
    String :=
  if json then
    jsonText (.object [("bytes", .nat size), ("input", .str input.text),
      ("method", .str options.method.name), ("output", .str output.text),
      ("palette", .str options.family.name)])
  else s!"wrote {output.text} ({size} bytes, {options.family.name})\n"

def crcText (json : Bool) (file : Path) (checksum : UInt32) : String :=
  if json then
    jsonText (.object [("crc", .nat checksum.toNat), ("file", .str file.text),
      ("hex", .str (hex checksum))])
  else s!"{checksum} ({hex checksum}) {file.text}\n"

def recordDocument (record : Pack.Record) : Document :=
  .object [("crc", .nat record.checksum.toNat), ("index", .integer record.index.toInt),
    ("offset", .integer record.offset.toInt), ("size", .integer record.size.toInt)]

/-- The outcome of a check. -/
def verdict (passed : Bool) : String := if passed then "ok" else "mismatch"

/-- Whether the data found under the index of a record has the checksum of the record. -/
def recordPasses (archive : Pack.Archive) (record : Pack.Record) : Bool :=
  match archive.extract record.index with
  | .ok data => Checksum.ofBytes data = record.checksum
  | .error _ => false

def columns (index offset size rest : String) : String :=
  s!"{padded 6 index} {padded 10 offset} {padded 10 size} {rest}\n"

def recordLine (archive : Pack.Archive) (record : Pack.Record) : String :=
  columns (toString record.index) (toString record.offset) (toString record.size)
    s!"{hex record.checksum} {verdict (recordPasses archive record)}"

def listText (json : Bool) (archive : Pack.Archive) : String :=
  let header := archive.header
  let checksum := Checksum.ofBytes archive.data
  if json then
    jsonText (.object [("data_crc", .nat checksum.toNat),
      ("entries", .list (archive.records.map recordDocument)),
      ("header", .object [("count", .nat header.count.toNat),
        ("crc", .nat header.checksum.toNat)]),
      ("path", .str archive.path.text)])
  else
    s!"{archive.path.text}: {header.count} resources, crc {hex header.checksum} " ++
      s!"({verdict (header.checksum = checksum)})\n" ++
      if archive.records.isEmpty then ""
      else columns "INDEX" "OFFSET" "SIZE" "CRC" ++
        String.join (archive.records.map (recordLine archive))

/-! ## Commands -/

variable {m : Type → Type} [Monad m] [Files m]

/-- Use the outcome of a file operation. -/
def attempt {α : Type} (action : String) (path : Path) (operation : m (Except FileError α)) :
    ExceptT Failure m α :=
  ExceptT.mk ((·.mapError (Failure.ofFile action path)) <$> operation)

/-- Use the outcome of a computation. -/
def settle {α : Type} (outcome : Except Build.Error α) : ExceptT Failure m α :=
  ExceptT.mk (pure (outcome.mapError .ofError))

def convertFile (input output : Path) (options : ConvertOptions) : ExceptT Failure m Nat := do
  let source ← attempt "read" input (Files.read input)
  let converted ← settle ((Codec.png.convert source options).mapError .picture)
  attempt "write" output (Files.write output converted)
  return converted.length

/-- The most bytes that one read of a file gives. -/
def readLimit : Nat := 0x10000

/-- What successive reads of a file give: full pieces, the rest, and nothing at the end. -/
def readsOf (content : Bytes) : List Bytes :=
  if content.isEmpty then [[]]
  else content.take readLimit :: readsOf (content.drop readLimit)
termination_by content.length
decreasing_by
  have := List.length_pos_iff.mpr (mt List.isEmpty_iff.mpr ‹_›)
  rw [List.length_drop, readLimit]
  omega

/-- The checksum of a file that is read piece by piece; `reads` says which pieces a content
comes in. A directory can be opened, but not read. -/
def fileChecksum (reads : Bytes → List Bytes) (file : Path) : ExceptT Failure m UInt32 :=
  ExceptT.mk do
    match ← Files.read file with
    | .ok content =>
      return .ok (Checksum.Stream.start Checksum.reset |>.drain (reads content)).value
    | .error .isDirectory => return .error (.ofFile "read" file .isDirectory)
    | .error cause => return .error (.ofFile "open" file cause)

/-- Report the checksum of a file that is read piece by piece. -/
def reportChecksum (reads : Bytes → List Bytes) (json : Bool) (file : Path) :
    ExceptT Failure m String := do
  return crcText json file (← fileChecksum reads file)

def openPack (pack : Path) : ExceptT Failure m Pack.Archive :=
  ExceptT.mk do
    match ← Files.read pack with
    | .ok content => return (Pack.Archive.ofBytes pack content).mapError (.ofError ∘ .pack)
    | .error cause => return .error (.ofError (.pack (.file pack cause)))

def writePages (directory : Path) : List (String × String) → ExceptT Failure m Unit
  | [] => return ()
  | (name, text) :: rest => do
    let path := directory.join ⟨name⟩
    attempt "write" path (Files.write path (Utf8.encode text))
    writePages directory rest

/-- Run a command. The rules for make name `tool` as the program that was run. -/
def run (tool : Option Path) (json : Bool) : Command → ExceptT Failure m String
  | .build manifest basename root outputs => do
    let report ← ExceptT.mk do
      return (← (Build.run Codec.png manifest basename root outputs tool).run).mapError .ofError
    return buildText json report
  | .convert input output options => do
    return convertText json input output options (← convertFile input output options)
  | .crc file => reportChecksum readsOf json file
  | .list pack => return listText json (← openPack pack)
  | .completions shell => return completionScript shell
  | .manPages directory => do
    attempt "create" directory (Files.makeDirectories directory)
    writePages directory pages
    return s!"man pages written to {directory.text}\n"

/-- How a call of the program ends. -/
inductive Outcome where
  /-- With this text on standard output. -/
  | success (output : String)
  | failure (failure : Failure)
  /-- The command line makes no sense. -/
  | misuse
  deriving DecidableEq, Repr

def execute (tool : Option Path) (arguments : List String) : m Outcome :=
  match Request.ofArguments? arguments with
  | none => return .misuse
  | some (.inquiry .help) => return .success help
  | some (.inquiry .version) => return .success s!"{program} {version}\n"
  | some (.run json command) => do
    match ← (run tool json command).run with
    | .ok output => return .success output
    | .error failure => return .failure failure

end Command

end ResourcePack
