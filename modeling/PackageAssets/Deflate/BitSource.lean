import PackageAssets.Bytes.Count

/-!
# Bits of a DEFLATE stream

Fields are read from the low end of each byte. A source holds the unread bits
of the current byte and the bytes after it; what is left of it is the one list
`bits`. Reading past the end fails.
-/
namespace PackageAssets.Deflate

-- powers of numbers are the built-in ones, whatever a library brings
attribute [local instance (20000)] instPowNat

/-- Why a compressed stream is refused. -/
inductive InflateError where
  | cutShort
  | header
  | blockType
  | storedLength
  | codeLengths
  | symbol
  | distance
  | checksum
  deriving DecidableEq, Repr

def InflateError.message : InflateError → String
  | cutShort => "Insufficient data"
  | header => "Bad zlib header"
  | blockType => "Reserved block type"
  | storedLength => "Stored block length and its complement do not match"
  | codeLengths => "Bad code lengths"
  | symbol => "Bad symbol"
  | distance => "Distance before the start of the output"
  | checksum => "Adler-32 does not match"

structure BitSource where
  pending : List Bool
  rest : List UInt8
  deriving DecidableEq, Repr

/-- A computation that takes bits off a source. -/
abbrev BitsM := EStateM InflateError BitSource

/-- The bits of a byte from its low end. -/
def byteBits (b : UInt8) : List Bool := (List.range 8).map fun i => b.toNat / 2 ^ i % 2 = 1

namespace BitSource

def ofBytes (data : List UInt8) : BitSource := ⟨[], data⟩

/-- All bits that are left. -/
def bits (s : BitSource) : List Bool := s.pending ++ s.rest.flatMap byteBits

end BitSource

def nextBit : BitsM Bool := fun s =>
  match s.pending with
  | b :: pending => .ok b { s with pending }
  | [] =>
    match s.rest with
    | [] => .error .cutShort s
    | byte :: rest =>
      match byteBits byte with
      | b :: pending => .ok b ⟨pending, rest⟩
      | [] => .error .cutShort s

/-- A number of `width` bits, the first one least significant. -/
def field : (width : Nat) → BitsM Nat
  | 0 => pure 0
  | width + 1 => do
    let b ← nextBit
    let high ← field width
    return b.toNat + 2 * high

/-- Drops the unread bits of the current byte. -/
def align : BitsM Unit := fun s => .ok () { s with pending := [] }

/-- The next `count` whole bytes. -/
def wholeBytes (count : Nat) : BitsM (List UInt8) := fun s =>
  let taken := s.rest.take count
  if taken.length < count then .error .cutShort s
  else .ok taken ⟨[], s.rest.drop count⟩

end PackageAssets.Deflate
