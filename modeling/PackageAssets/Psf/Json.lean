import PackageAssets.Psf.Package
import PackageAssets.Text.Json

/-!
# PSF files as JSON

Bytes become a list of numbers and a missing value becomes null. Dictionaries
list their keys in order; headers and records show the numbers in the file.
-/
namespace PackageAssets.Psf

def natJson (n : Nat) : Json := .number n

def Value.json : Value → Json
  | .binary bytes => .list (bytes.map fun b => natJson b.toNat)
  | .text s => .text s
  | .int n => .number n.toInt
  | .unit => .null

def Dictionary.json (d : Dictionary) : Json :=
  .object (d.pairs.map fun pair => (pair.1, pair.2.json))

def PackageKind.json (kind : PackageKind) : Json := .text kind.name

def Header.json (h : Header) : Json :=
  .object [("version", natJson h.version), ("key_table", natJson h.keyTable),
    ("value_table", natJson h.valueTable), ("pair_count", natJson h.pairCount)]

def Record.json (r : Record) : Json :=
  .object [("key_offset", natJson r.keyOffset), ("param_fmt", natJson r.format),
    ("data_type", natJson r.valueType), ("value_size", natJson r.valueSize),
    ("value_size_pad", natJson r.paddedSize), ("value_offset", natJson r.valueOffset)]

end PackageAssets.Psf
