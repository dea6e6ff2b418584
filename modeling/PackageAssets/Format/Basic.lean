/-!
# Image formats

The formats an image can be stored in. Every one can be read, only PNG can be
written.
-/
namespace PackageAssets

inductive ImageFormat where
  | png
  | bmp
  | tga
  deriving DecidableEq, Repr

namespace ImageFormat

/-- The formats in the order data is tried for them. TGA has no magic bytes, so it comes last. -/
def all : List ImageFormat := [png, bmp, tga]

def name : ImageFormat → String
  | png => "PNG"
  | bmp => "BMP"
  | tga => "TGA"

/-- The ending of a file name. -/
def extension : ImageFormat → String
  | png => "png"
  | bmp => "bmp"
  | tga => "tga"

def hasEncoder : ImageFormat → Bool
  | png => true
  | _ => false

/-- The format usually stored under an ending, in upper or lower case. -/
def ofExtension? (text : String) : Option ImageFormat :=
  all.find? fun format => format.extension.toList = text.toList.map Char.toLower

theorem mem_all (format : ImageFormat) : format ∈ all := by
  cases format <;> decide

end ImageFormat

end PackageAssets
