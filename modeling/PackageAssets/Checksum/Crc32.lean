/-!
# CRC-32

The checksum of chunks: a 32 bit register, shifted towards its low end, with
the polynomial `0xEDB88320`. A byte is taken in one step, with a table of what
eight shifts make of each low byte. A running checksum starts with all ones
and is inverted at the end, so a message may be fed in parts.
-/
namespace PackageAssets.Crc32

def polynomial : UInt32 := 0xEDB88320

def initial : UInt32 := 0xFFFFFFFF

/-- One shift of the register. -/
def shift (c : UInt32) : UInt32 := if c &&& 1 = 1 then polynomial ^^^ (c >>> 1) else c >>> 1

def shifts : Nat → UInt32 → UInt32
  | 0, c => c
  | n + 1, c => shifts n (shift c)

/-- What eight shifts make of each register below 256. -/
def table : Array UInt32 := Array.ofFn fun i : Fin 256 => shifts 8 (UInt32.ofNat i.val)

/-- The register after one more byte. -/
def step (c : UInt32) (b : UInt8) : UInt32 :=
  table.getD ((c ^^^ b.toUInt32) &&& 0xFF).toNat 0 ^^^ (c >>> 8)

/-- The register after more bytes. -/
def update (c : UInt32) (bytes : List UInt8) : UInt32 := bytes.foldl step c

def ofBytes (bytes : List UInt8) : UInt32 := ~~~update initial bytes

theorem update_append (c : UInt32) (a b : List UInt8) :
    update c (a ++ b) = update (update c a) b := List.foldl_append

end PackageAssets.Crc32
