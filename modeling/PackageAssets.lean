import PackageAssets.Bmp.Decoder
import PackageAssets.Bmp.Error
import PackageAssets.Bytes.Blocks
import PackageAssets.Bytes.Count
import PackageAssets.Bytes.Order
import PackageAssets.Checksum.Adler32
import PackageAssets.Checksum.Crc32
import PackageAssets.Command.Arguments
import PackageAssets.Command.Console
import PackageAssets.Command.Convert
import PackageAssets.Command.Error
import PackageAssets.Command.Probe
import PackageAssets.Command.Request
import PackageAssets.Command.Run
import PackageAssets.Command.Table
import PackageAssets.Deflate.BitSource
import PackageAssets.Deflate.Code
import PackageAssets.Deflate.Inflate
import PackageAssets.Deflate.Zlib
import PackageAssets.Files.Basic
import PackageAssets.Files.Path
import PackageAssets.Format.Basic
import PackageAssets.Format.Codec
import PackageAssets.Format.Error
import PackageAssets.Image.Basic
import PackageAssets.Image.Color
import PackageAssets.Image.Options
import PackageAssets.Image.Pixmap
import PackageAssets.Log.Note
import PackageAssets.Main
import PackageAssets.Png.Decoder
import PackageAssets.Png.Encoder
import PackageAssets.Png.Error
import PackageAssets.Png.Filter
import PackageAssets.Png.Format
import PackageAssets.Png.Listing
import PackageAssets.Png.Scanlines
import PackageAssets.Proofs.Bmp.InStep
import PackageAssets.Proofs.Bytes.Stored
import PackageAssets.Proofs.Checksum.Burst
import PackageAssets.Proofs.Checksum.Serial
import PackageAssets.Proofs.Deflate.Bits
import PackageAssets.Proofs.Deflate.Stored
import PackageAssets.Proofs.Format.Failures
import PackageAssets.Proofs.Format.InStep
import PackageAssets.Proofs.Format.Sinks
import PackageAssets.Proofs.Format.Windows
import PackageAssets.Proofs.Image.Exchange
import PackageAssets.Proofs.Image.Requests
import PackageAssets.Proofs.Png.Chunk
import PackageAssets.Proofs.Png.Cut
import PackageAssets.Proofs.Png.Damage
import PackageAssets.Proofs.Png.Filtering
import PackageAssets.Proofs.Png.Grammar
import PackageAssets.Proofs.Png.HeaderChunk
import PackageAssets.Proofs.Png.InStep
import PackageAssets.Proofs.Png.RoundTrip
import PackageAssets.Proofs.Png.Shape
import PackageAssets.Proofs.Png.Walk
import PackageAssets.Proofs.Png.Written
import PackageAssets.Proofs.Psf.Acceptance
import PackageAssets.Proofs.Psf.Fields
import PackageAssets.Proofs.Psf.Growing
import PackageAssets.Proofs.Psf.InStep
import PackageAssets.Proofs.Psf.Layout
import PackageAssets.Proofs.Psf.Lookup
import PackageAssets.Proofs.Psf.Requests
import PackageAssets.Proofs.Psf.RoundTrip
import PackageAssets.Proofs.Psf.Tables
import PackageAssets.Proofs.Psf.WrittenFile
import PackageAssets.Proofs.Stream.Ahead
import PackageAssets.Proofs.Stream.Emits
import PackageAssets.Proofs.Stream.Frame
import PackageAssets.Proofs.Stream.InStep
import PackageAssets.Proofs.Stream.ReadSide
import PackageAssets.Proofs.Stream.Requests
import PackageAssets.Proofs.Stream.Sink
import PackageAssets.Proofs.Stream.Steps
import PackageAssets.Proofs.Stream.Takes
import PackageAssets.Proofs.Stream.Terminated
import PackageAssets.Proofs.Stream.Twins
import PackageAssets.Proofs.Text.RoundTrip
import PackageAssets.Proofs.Tga.InStep
import PackageAssets.Psf.Decoder
import PackageAssets.Psf.Dictionary
import PackageAssets.Psf.Encoder
import PackageAssets.Psf.Error
import PackageAssets.Psf.Json
import PackageAssets.Psf.Package
import PackageAssets.Psf.Record
import PackageAssets.Psf.Value
import PackageAssets.Stream.Bits
import PackageAssets.Stream.Cursor
import PackageAssets.Stream.Error
import PackageAssets.Stream.Read
import PackageAssets.Stream.Reading
import PackageAssets.Stream.Session
import PackageAssets.Stream.Source
import PackageAssets.Stream.Standard
import PackageAssets.Stream.Write
import PackageAssets.Text.Hex
import PackageAssets.Text.Json
import PackageAssets.Text.Printable
import PackageAssets.Text.Quoted
import PackageAssets.Text.Utf8
import PackageAssets.Tga.Decoder
import PackageAssets.Tga.Error
import PackageAssets.Proofs.Stream.Reaching
import PackageAssets.Proofs.Tga.Headers
import PackageAssets.Proofs.Bmp.Headers
import PackageAssets.Proofs.Format.Recognition
import PackageAssets.Proofs.Format.Agreement
import PackageAssets.Proofs.Stream.Overwrite
import PackageAssets.Proofs.Stream.Touches
import PackageAssets.Proofs.Stream.Turns
import PackageAssets.Proofs.Stream.Confinement
import PackageAssets.Proofs.Stream.BitStrings
import PackageAssets.Proofs.Stream.BitFields
import PackageAssets.Stream.Buffer
import PackageAssets.Stream.Handle
import PackageAssets.Proofs.Stream.Flat
import PackageAssets.Proofs.Stream.Backings
import PackageAssets.Proofs.Png.Copied
import PackageAssets.Proofs.Stream.Copied
import PackageAssets.Proofs.Png.Rereading
import PackageAssets.Proofs.Files.Store
import PackageAssets.Proofs.Command.Convert
import PackageAssets.Proofs.Stream.Ends
import PackageAssets.Proofs.Format.Retry
import PackageAssets.Proofs.Stream.Fronts
import PackageAssets.Proofs.Format.Fronts
import PackageAssets.Proofs.Psf.Fronts
import PackageAssets.Proofs.Stream.BitReads
import PackageAssets.Proofs.Bmp.Pixels
import PackageAssets.Proofs.Tga.Pixels
import PackageAssets.Proofs.Image.Words
import PackageAssets.Proofs.Format.Settled
import PackageAssets.Proofs.Png.Sizes
import PackageAssets.Proofs.Bmp.Sizes
import PackageAssets.Proofs.Tga.Sizes
import PackageAssets.Proofs.Format.Sizes
import PackageAssets.Proofs.Bytes.Offsets
import PackageAssets.Proofs.Psf.Placement
import PackageAssets.Proofs.Stream.Overlooked
import PackageAssets.Proofs.Format.Starts
import PackageAssets.Proofs.Bmp.Places
import PackageAssets.Proofs.Stream.Guarded
import PackageAssets.Proofs.Stream.Room
import PackageAssets.Proofs.Stream.Views
import PackageAssets.Proofs.Stream.Folding
import PackageAssets.Proofs.Stream.Seen
import PackageAssets.Proofs.Stream.Transfer
import PackageAssets.Proofs.Stream.Texts
import PackageAssets.Proofs.Png.InPlace
import PackageAssets.Proofs.Stream.Storing
import PackageAssets.Proofs.Stream.Layouts
import PackageAssets.Proofs.Png.Checksums
import PackageAssets.Proofs.Image.Changes
