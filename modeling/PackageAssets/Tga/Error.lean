import PackageAssets.Stream.Error

/-!
# Failures of the TGA reader
-/
namespace PackageAssets.Tga

inductive Error where
  | unsupportedImageType (number : Nat)
  | unsupportedColorMapType (number : Nat)
  | unsupportedPixelDepth (depth : Nat)
  | zeroDimensions
  | tooLarge (width height : Nat)
  | io (cause : IoError)
  deriving DecidableEq, Repr

namespace Error

def kind : Error → ErrorClass
  | io cause => cause.kind
  | _ => .format

def message : Error → String
  | unsupportedImageType number =>
    if number = 1 then "Unsupported indexed TGA\n"
    else if 9 ≤ number ∧ number ≤ 11 then "Unsupported RLE TGA\n"
    else s!"Unknown TGA image type {number}\n"
  | unsupportedColorMapType number => s!"Unknown TGA color map type {number}\n"
  | unsupportedPixelDepth depth => s!"Pixel depth {depth} unsupported, not an RGB(A) TGA\n"
  | zeroDimensions => "Width or height is zero, invalid image\n"
  | tooLarge width height => s!"Too large dimensions {width}x{height}\n"
  | io cause => cause.message ++ "\n"

instance : OfIoError Error := ⟨io⟩

end Error

end PackageAssets.Tga
