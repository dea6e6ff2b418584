/-!
# Notes

While they work, the readers and writers note what they see. A note carries a
level and the part of the program it comes from; whether it is shown is
decided by the least severe level asked for.
-/
namespace PackageAssets

inductive Level where
  | trace
  | debug
  | info
  | warn
  | error
  deriving DecidableEq, Repr

namespace Level

def severity : Level → Nat
  | trace => 0
  | debug => 1
  | info => 2
  | warn => 3
  | error => 4

def name : Level → String
  | trace => "TRACE"
  | debug => "DEBUG"
  | info => "INFO"
  | warn => "WARN"
  | error => "ERROR"

end Level

/-- The parts of the program that write notes. -/
inductive Origin where
  | program
  | levels
  | probing
  | tables
  | conversion
  | files
  | formats
  | bitmap
  | targa
  | pngHeader
  | pngReader
  | pngWriter
  | tableReader
  deriving DecidableEq, Repr

/-- The name a part of the program goes by in its notes. -/
def Origin.name : Origin → String
  | program => "vita_bin"
  | levels => "vita_bin::cmd_parsers::global_options"
  | probing => "vita_bin::probe_files"
  | tables => "vita_bin::sfo"
  | conversion => "vita_bin::workflow"
  | files => "vita_core::bytestream::file"
  | formats => "vita_image::codecs"
  | bitmap => "vita_image::codecs::bmp"
  | targa => "vita_image::codecs::tga"
  | pngHeader => "vita_png::headers"
  | pngReader => "vita_png::decoder"
  | pngWriter => "vita_png::encoder"
  | tableReader => "vita_psf::decoder"

structure Note where
  level : Level
  origin : Origin
  text : String
  deriving DecidableEq, Repr

namespace Note

/-- Level names are padded to five characters. -/
def line (note : Note) : String :=
  String.ofList (note.level.name.toList.rightpad 5 ' ') ++ " [" ++ note.origin.name ++ "] " ++
    note.text ++ "\n"

def shown (least : Level) (note : Note) : Bool := least.severity ≤ note.level.severity

end Note

end PackageAssets
