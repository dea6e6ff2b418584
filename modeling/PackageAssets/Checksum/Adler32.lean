/-!
# Adler-32

The checksum at the end of a zlib stream: the sum of the bytes plus one, and
the sum of those running sums, both modulo 65521.
-/
namespace PackageAssets.Adler32

def modulus : Nat := 65521

def step (sums : Nat × Nat) (b : UInt8) : Nat × Nat :=
  let low := (sums.1 + b.toNat) % modulus
  (low, (sums.2 + low) % modulus)

def ofBytes (bytes : List UInt8) : Nat :=
  let sums := bytes.foldl step (1, 0)
  sums.2 * 65536 + sums.1

end PackageAssets.Adler32
