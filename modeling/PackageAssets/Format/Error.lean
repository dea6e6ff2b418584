import PackageAssets.Bmp.Error
import PackageAssets.Format.Basic
import PackageAssets.Png.Error
import PackageAssets.Tga.Error

/-!
# Failures around images of any format
-/
namespace PackageAssets

inductive ImageError where
  /-- No format recognises the data. -/
  | unknownFormat
  | noEncoder (format : ImageFormat)
  | png (cause : Png.Error)
  | bmp (cause : Bmp.Error)
  | tga (cause : Tga.Error)
  | io (cause : IoError)
  deriving DecidableEq, Repr

namespace ImageError

def kind : ImageError → ErrorClass
  | unknownFormat => .format
  | noEncoder _ => .format
  | png cause => cause.kind
  | bmp cause => cause.kind
  | tga cause => cause.kind
  | io cause => cause.kind

/-- The text of a failure. Every level of causes ends its own line. -/
def message : ImageError → String
  | unknownFormat => "Unknown image format\n"
  | noEncoder format => "No encoder for format " ++ format.name ++ "\n"
  | png cause => cause.message ++ "\n"
  | bmp cause => cause.message ++ "\n"
  | tga cause => cause.message ++ "\n"
  | io cause => "I/O error " ++ cause.message ++ "\n"

end ImageError

end PackageAssets
