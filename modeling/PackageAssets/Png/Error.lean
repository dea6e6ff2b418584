import PackageAssets.Text.Hex
import PackageAssets.Text.Utf8
import PackageAssets.Deflate.BitSource
import PackageAssets.Stream.Error

/-!
# Failures of the PNG reader and writer

Only missing pixel data and the failures of the stream are anything but a
question of format.
-/
namespace PackageAssets.Png

inductive Error where
  | badSignature
  | unsupportedDepth (depth : Nat)
  | unsupportedColor (code : Nat)
  /-- A compression, filter or interlace method that is not zero. -/
  | unsupportedMethod (method : String) (value : Nat)
  | unknownFilter (number : UInt8)
  | badHeaderLength (length : Nat)
  | zeroDimensions
  | largeDimensions (width height : Nat)
  | chunkOrder (reason : String)
  | missingHeader
  | noImageData
  | missingTerminator
  | unknownCriticalChunk (name : List UInt8)
  | badChecksum (name : List UInt8) (expected found : UInt32)
  | shortImageData (expected found : Nat)
  | inflate (cause : Deflate.InflateError)
  | io (cause : IoError)
  deriving DecidableEq, Repr

namespace Error

def kind : Error → ErrorClass
  | shortImageData .. => .truncated
  | io cause => cause.kind
  | _ => .format

def message : Error → String
  | badSignature => "Bad PNG signature, not a png\n"
  | unsupportedDepth depth =>
    s!"Unsupported bit depth {depth}, only 8 bit images are supported\n"
  | unsupportedColor code =>
    s!"Unsupported color type {code}, only RGB(2) and RGBA(6) are supported\n"
  | unsupportedMethod method value => s!"Unsupported {method} method {value}\n"
  | unknownFilter number => s!"Unknown filter {number}\n"
  | badHeaderLength length => s!"Bad IHDR length {length}, expected 13\n"
  | zeroDimensions => "Width or height cannot be zero\n"
  | largeDimensions width height =>
    s!"Image dimensions {width}x{height} larger than the configured maximum, aborting\n"
  | chunkOrder reason => s!"Bad chunk order: {reason}\n"
  | missingHeader => "No IHDR chunk found\n"
  | noImageData => "No IDAT chunks found\n"
  | missingTerminator => "Stream ended without an IEND chunk\n"
  | unknownCriticalChunk name =>
    "Marker " ++ Text.ofBytes name ++ " unknown but deemed necessary\n"
  | badChecksum name expected found =>
    "CRC does not match for chunk " ++ Text.ofBytes name ++ ", expected " ++
      Hex.upper 8 expected.toNat ++ " but found " ++ Hex.upper 8 found.toNat ++ "\n"
  | shortImageData expected found =>
    s!"Not enough pixels, expected {expected} bytes but found {found}\n"
  | inflate cause => "Error decoding idat chunks " ++ cause.message ++ "\n"
  | io cause => "I/O error " ++ cause.message ++ "\n"

instance : OfIoError Error := ⟨io⟩

end Error

end PackageAssets.Png
