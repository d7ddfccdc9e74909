import ResourcePack.Build.Error
import ResourcePack.Files.Access
import ResourcePack.Manifest.Validation
import ResourcePack.Pack.Archive
import ResourcePack.Picture.Codec

/-!
# Sources of resources

A source yields the bytes of one resource. It reads one file, and what it yields depends
on nothing but the outcome of that.
-/

namespace ResourcePack

open Build (Error)

/-- Where a resource comes from. -/
inductive Source where
  /-- A file as it is. -/
  | file (path : Path)
  /-- A resource of another pack. -/
  | extract (pack : Path) (index : Int32)
  /-- A picture to be reduced. -/
  | image (path : Path) (options : ConvertOptions)
  deriving DecidableEq, Repr

namespace Source

/-- The settings of a picture. If none is given, the nearest level is taken. The method
is looked at before the depth. -/
def imageOptions (family : Family) (method : Option String) (depth : Option UInt8) :
    Except Picture.Error ConvertOptions := do
  let method ← method.mapM Method.parse
  let depth ← depth.mapM Depth.ofBits
  return { family, method := method.getD .nearest, depth }

/-- The source that a manifest describes, its path taken from `root`. -/
def ofDescriptor (root : Path) (family : Family) :
    Manifest.Descriptor → Except Picture.Error Source
  | .file path => .ok (.file (root.join ⟨path⟩))
  | .extract pack index => .ok (.extract (root.join ⟨pack⟩) index)
  | .image path method depth => do
    return .image (root.join ⟨path⟩) (← imageOptions family method depth)

/-- The file that is read. -/
def path : Source → Path
  | .file path => path
  | .extract pack _ => pack
  | .image path _ => path

/-- All files that are read. -/
def dependencies (source : Source) : List Path := [source.path]

/-- A description for readers of the header. -/
def provenance : Source → String
  | .file path => path.text
  | .extract pack index => s!"resource ID {index} from pack {pack.text}"
  | .image path _ => s!"imported image {path.text}"

def options? : Source → Option ConvertOptions
  | .image _ options => some options
  | _ => none

/-- The failure when the file cannot be read. -/
def unreadable (source : Source) (cause : FileError) : Error :=
  match source with
  | .file path | .image path _ => .read path cause
  | .extract pack _ => .pack (.file pack cause)

/-- The bytes of the resource, from the content of the file. -/
def produce (codec : Codec) (source : Source) (content : Bytes) : Except Error Bytes :=
  match source with
  | .file _ => .ok content
  | .extract pack index =>
    (do (← Pack.Archive.ofBytes pack content).extract index : Except Pack.Error Bytes).mapError
      .pack
  | .image _ options => (codec.convert content options).mapError .picture

/-- The bytes of the resource, from the outcome of reading the file. -/
def ofOutcome (codec : Codec) (source : Source) :
    Except FileError Bytes → Except Error Bytes
  | .ok content => source.produce codec content
  | .error cause => .error (source.unreadable cause)

/-- Read the file and yield the bytes of the resource. -/
def bytes {m : Type → Type} [Monad m] [Files m] (codec : Codec) (source : Source) :
    ExceptT Error m Bytes :=
  ExceptT.mk (source.ofOutcome codec <$> Files.read source.path)

end Source

end ResourcePack
