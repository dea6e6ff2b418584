import PackageAssets.Stream.Read

/-!
# Writing

`writeBytes` writes all it is given or nothing: a root window over memory
grows, a slice refuses what would cross its end. Writes built from several of
these may stop between two of them, with the earlier ones done.
-/
namespace PackageAssets.Stream

-- powers of numbers are the built-in ones, whatever a library brings
attribute [local instance (20000)] instPowNat

def writeBytes (bytes : List UInt8) : StreamM Unit := fun s =>
  let stop := Count.clamp (s.position + bytes.length)
  let crosses := match s.window with
    | .root => false
    | .slice start limit => limit < Count.clamp (Count.clamp (start + s.position) + bytes.length)
  if crosses then .error (.outOfBounds s.position stop s.length) s
  else match s.source.writeAt s.absolute bytes with
    | .ok source => .ok () { source, cursor := (s.seek (s.position + bytes.length)).cursor }
    | .error e => .error e s

def writeByte (b : UInt8) : StreamM Unit := writeBytes [b]

def writeInt (format : IntFormat) (value : Int) : StreamM Unit := writeBytes (format.encode value)

/-- An unsigned number in `width` bytes, which must hold it. -/
def writeNat (order : ByteOrder) (width n : Nat) : StreamM Unit :=
  if n < 256 ^ width then writeBytes (order.write width n) else throw .integerRange

/-- The text and a zero byte, in two writes. -/
def writeText (text : String) : StreamM Unit := do
  writeBytes (Text.utf8 text)
  writeByte 0

/-- The text in exactly `count` bytes, cut or filled up with zeros. -/
def writeTextFixed (text : String) (count : Nat) : StreamM Unit :=
  writeBytes (((Text.utf8 text).take count).rightpad count 0)

def writeRepeated (b : UInt8) : (count : Nat) → StreamM Unit
  | 0 => pure ()
  | count + 1 => do
    writeByte b
    writeRepeated b count

/-- Writes `b` until the position is a multiple of `alignment`. -/
def writeToAlign (alignment : Nat) (b : UInt8) : StreamM Unit := fun s =>
  if alignment = 0 then .ok () s
  else writeRepeated b ((alignment - s.position % alignment) % alignment) s

end PackageAssets.Stream
