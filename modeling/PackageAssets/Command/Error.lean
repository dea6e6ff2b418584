import PackageAssets.Format.Error
import PackageAssets.Psf.Error

/-!
# Failures of commands
-/
namespace PackageAssets.Command

inductive Error where
  | image (cause : ImageError)
  | table (cause : Psf.Error)
  | io (cause : IoError)
  deriving DecidableEq, Repr

def Error.message : Error → String
  | image cause => cause.message ++ "\n"
  | table cause => cause.message ++ "\n"
  | io cause => cause.message ++ "\n"

end PackageAssets.Command
