import PackageAssets.Image.Color

/-!
# The parts of a PNG

A PNG is a signature and a list of chunks. Only pixels of three or four bytes
are supported: red, green and blue, with or without alpha.
-/
namespace PackageAssets.Png

def signature : List UInt8 := [0x89, 0x50, 0x4E, 0x47, 0x0D, 0x0A, 0x1A, 0x0A]

/-- The size of the header chunk's payload. -/
def headerSize : Nat := 13

def supportedDepth : Nat := 8

namespace Name

def header : List UInt8 := [0x49, 0x48, 0x44, 0x52]

def palette : List UInt8 := [0x50, 0x4C, 0x54, 0x45]

def data : List UInt8 := [0x49, 0x44, 0x41, 0x54]

def terminator : List UInt8 := [0x49, 0x45, 0x4E, 0x44]

end Name

inductive ChunkKind where
  | header
  | palette
  | data
  | terminator
  | unknown
  deriving DecidableEq, Repr

namespace ChunkKind

def ofName (name : List UInt8) : ChunkKind :=
  if name = Name.header then header
  else if name = Name.palette then palette
  else if name = Name.data then data
  else if name = Name.terminator then terminator
  else unknown

def text : ChunkKind → String
  | header => "IHDR"
  | palette => "PLTE"
  | data => "IDAT"
  | terminator => "IEND"
  | unknown => "unkn"

end ChunkKind

/-- Whether a chunk is needed to show the image: bit 5 of its name's first byte is clear. -/
def isCritical (name : List UInt8) : Bool := (name.headD 0).toNat / 32 % 2 = 0

inductive ColorType where
  | rgb
  | rgba
  deriving DecidableEq, Repr

namespace ColorType

/-- Bytes in a pixel. -/
def components : ColorType → Nat
  | rgb => 3
  | rgba => 4

def code : ColorType → Nat
  | rgb => 2
  | rgba => 6

def ofCode? : Nat → Option ColorType
  | 2 => some rgb
  | 6 => some rgba
  | _ => none

def name : ColorType → String
  | rgb => "RGB"
  | rgba => "RGBA"

end ColorType

/-- The contents of the header chunk. -/
structure Header where
  width : Nat
  height : Nat
  depth : Nat
  color : ColorType
  deriving DecidableEq, Repr

end PackageAssets.Png
