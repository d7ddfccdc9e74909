import ResourcePack.Build.MakeRules.Reader
import ResourcePack.Build.SymbolHeader.Reader
import ResourcePack.Main
import ResourcePack.Proofs.Pack.Placement
import ResourcePack.Proofs.Pack.RoundTrip
import ResourcePack.Proofs.Picture.Device
import ResourcePack.Proofs.Picture.FirstSeen
import ResourcePack.Proofs.Picture.Grey
import ResourcePack.Proofs.Picture.Quantized
import ResourcePack.Proofs.Files.Writing
import ResourcePack.Proofs.Files.Running
import ResourcePack.Proofs.Build.Outputs
import ResourcePack.Proofs.Deflate.Stored
import ResourcePack.Proofs.Png.Rows
import ResourcePack.Proofs.Png.Chunks
import ResourcePack.Proofs.Png.RoundTrip
import ResourcePack.Proofs.Picture.Conversion
import ResourcePack.Proofs.Checksum.Streaming
import ResourcePack.Proofs.WordValue
import ResourcePack.Proofs.Checksum.Division
import ResourcePack.Proofs.Pack.Opening
import ResourcePack.Proofs.Files.Spelling
import ResourcePack.Proofs.Pack.Addresses
import ResourcePack.Proofs.Build.Dependencies
import ResourcePack.Proofs.Build.Plan
import ResourcePack.Proofs.Files.Disk
import ResourcePack.Proofs.Build.Drafts
import ResourcePack.Proofs.Build.Failure
import ResourcePack.Proofs.Build.Repetition
import ResourcePack.Proofs.Build.MakeRules
import ResourcePack.Proofs.Build.SymbolHeader.Reading
import ResourcePack.Proofs.Build.SymbolHeader
import ResourcePack.Proofs.Build.Loading
import ResourcePack.Proofs.Picture.LeastDepth
import ResourcePack.Document.Json.Grammar
import ResourcePack.Proofs.Command.Listing
import ResourcePack.Proofs.Document.Fields
import ResourcePack.Proofs.Document.Json.Numbers
import ResourcePack.Proofs.Document.Json.Printing
import ResourcePack.Proofs.Manifest.Annotations
import ResourcePack.Proofs.Pack.InPlace
import ResourcePack.Proofs.Picture.ForcedDepth
import ResourcePack.Proofs.Png.InPlace
import ResourcePack.Proofs.Png.RowBits
import ResourcePack.Proofs.Pack.Limits
import ResourcePack.Proofs.Checksum.PieceChanges
import ResourcePack.Proofs.Checksum.BitChanges
import ResourcePack.Proofs.Manifest.FirstDefect
import ResourcePack.Proofs.Picture.Recovery
import ResourcePack.Proofs.Picture.Stability
import ResourcePack.Proofs.Picture.Projection
import ResourcePack.Proofs.Build.Settings
import ResourcePack.Proofs.Build.FirstFailure
import ResourcePack.Proofs.Build.FirstUse
import ResourcePack.Proofs.Build.SourceFaults
import ResourcePack.Proofs.Build.Faults
import ResourcePack.Proofs.Command.ChecksumReport
import ResourcePack.Proofs.Command.ExitCodes
