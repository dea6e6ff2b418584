import PackageAssets.Text.Hex
import PackageAssets.Bytes.Order
import PackageAssets.Text.Utf8

/-!
# Values of a PSF table

A value is bytes, text, a signed 32 bit integer or nothing. Each kind has a
number in the file; every number without a kind reads as nothing. Text is
stored with a zero byte after it.
-/
namespace PackageAssets.Psf

inductive Value where
  | binary (bytes : List UInt8)
  | text (s : String)
  | int (n : Int32)
  | unit
  deriving DecidableEq, Repr

namespace Value

def asText? : Value → Option String
  | text s => some s
  | _ => none

def asInt? : Value → Option Int32
  | int n => some n
  | _ => none

def asBytes? : Value → Option (List UInt8)
  | binary bytes => some bytes
  | _ => none

/-- The number of the kind of a value. -/
def typeNumber : Value → Nat
  | binary _ => 0
  | text _ => 2
  | int _ => 4
  | unit => 1

def display : Value → String
  | binary bytes => Hex.bytes bytes
  | text s => s
  | int n => toString n.toInt
  | unit => ""

/-- A signed integer of four bytes, least significant first. -/
def intFormat : IntFormat := ⟨4, true, .little⟩

/-- The bytes a value is stored in, without padding. -/
def stored : Value → List UInt8
  | binary bytes => bytes
  | text s => Text.utf8 s ++ [0]
  | int n => intFormat.encode n.toInt
  | unit => []

end Value

end PackageAssets.Psf
