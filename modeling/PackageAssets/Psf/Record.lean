/-!
# The layout of a PSF file

A PSF file is a header, a record of fixed size for each pair, a table of keys
and a table of values. Offsets in the header count from the start of the file,
those in a record from the start of its table.
-/
namespace PackageAssets.Psf

def magic : List UInt8 := [0x00, 0x50, 0x53, 0x46]

def headerSize : Nat := 20

def recordSize : Nat := 16

/-- The format number in every record. -/
def formatNumber : UInt8 := 4

/-- The tables and each value start at a multiple of this. -/
def tableAlignment : Nat := 4

def defaultVersion : UInt32 := 0x0101

structure Header where
  version : Nat
  keyTable : Nat
  valueTable : Nat
  pairCount : Nat
  deriving DecidableEq, Repr

structure Record where
  keyOffset : Nat
  format : Nat
  valueType : Nat
  /-- Bytes used by the value. -/
  valueSize : Nat
  /-- Bytes reserved for the value. -/
  paddedSize : Nat
  valueOffset : Nat
  deriving DecidableEq, Repr

end PackageAssets.Psf
