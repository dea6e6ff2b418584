import PackageAssets.Stream.Error

/-!
# Failures of the BMP reader
-/
namespace PackageAssets.Bmp

inductive Error where
  | badMagic
  | unsupportedHeaderSize (size : Nat)
  | unsupportedDepth (depth : Nat)
  | unsupportedCompression (scheme : Nat)
  | zeroDimensions
  | tooLarge (width height : Nat)
  | invalid (reason : String)
  | io (cause : IoError)
  deriving DecidableEq, Repr

namespace Error

def kind : Error → ErrorClass
  | io cause => cause.kind
  | _ => .format

def message : Error → String
  | badMagic => "Invalid magic bytes, file does not start with BM\n"
  | unsupportedHeaderSize size => s!"Unsupported information header size {size}\n"
  | unsupportedDepth depth => s!"Depth {depth} unsupported, supported depths are 8, 24 and 32\n"
  | unsupportedCompression scheme => s!"Unsupported BMP compression scheme {scheme}\n"
  | zeroDimensions => "Width or height is zero, invalid image\n"
  | tooLarge width height => s!"Too large dimensions {width}x{height}\n"
  | invalid reason => reason ++ "\n"
  | io cause => cause.message ++ "\n"

instance : OfIoError Error := ⟨io⟩

end Error

end PackageAssets.Bmp
