import PackageAssets.Psf.Record
import PackageAssets.Stream.Error

/-!
# Failures of the PSF reader
-/
namespace PackageAssets.Psf

inductive Error where
  | wrongMagic (found : List UInt8)
  | keyOutOfRange (offset tableLength : Nat)
  | valueOutOfRange (offset size tableLength : Nat)
  | io (cause : IoError)
  deriving DecidableEq, Repr

/-- Bytes as a list of decimal numbers. -/
def decimalList (bytes : List UInt8) : String :=
  "[" ++ ", ".intercalate (bytes.map fun b => toString b.toNat) ++ "]"

namespace Error

def kind : Error → ErrorClass
  | wrongMagic _ => .format
  | keyOutOfRange .. => .truncated
  | valueOutOfRange .. => .truncated
  | io cause => cause.kind

def message : Error → String
  | wrongMagic found =>
    "Expected " ++ decimalList magic ++ " but found " ++ decimalList found ++
      ", not a PSF file\n"
  | keyOutOfRange offset tableLength =>
    s!"Key offset {offset} is outside the key table of {tableLength} bytes\n"
  | valueOutOfRange offset size tableLength =>
    s!"Value of {size} bytes at {offset} overruns the value table of {tableLength} bytes\n"
  | io cause => "I/O error " ++ cause.message ++ "\n"

instance : OfIoError Error := ⟨io⟩

end Error

end PackageAssets.Psf
