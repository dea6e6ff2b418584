import PackageAssets.Psf.Dictionary
import PackageAssets.Psf.Record
import PackageAssets.Stream.Session

/-!
# Writing PSF

Pairs are written in the order of their keys. The records, the keys and the
values are each laid out with a cursor of their own over memory that grows, and
where a cursor stands says where the next key or value starts. An offset that
does not fit its field stops the writer before anything is written. The three
tables are then copied behind the header, one after another.
-/
namespace PackageAssets.Psf

-- powers of numbers are the built-in ones, whatever a library brings
attribute [local instance (20000)] instPowNat

/-- The tables of a file while they are laid out, each with a cursor at its end. -/
structure TableCursors where
  entries : Stream
  keys : Stream
  values : Stream

/-- What a writer makes of a stream that is dropped when it fails. -/
def grown (step : StreamM Unit) (s : Stream) : Except IoError Stream :=
  match step s with
  | .ok () t => .ok t
  | .error e _ => .error e

/-- A number that must fit in so many bits. -/
def narrow (bits n : Nat) : Except IoError Nat :=
  if n < 2 ^ bits then .ok n else .error .integerRange

def writeValue : Value → StreamM Unit
  | .binary bytes => Stream.writeBytes bytes
  | .text s => Stream.writeText s
  | .int n => Stream.writeInt Value.intFormat n.toInt
  | .unit => pure ()

def writeRecord (r : Record) : StreamM Unit := do
  Stream.writeNat .little 2 r.keyOffset
  Stream.writeByte (.ofNat r.format)
  Stream.writeByte (.ofNat r.valueType)
  Stream.writeNat .little 4 r.valueSize
  Stream.writeNat .little 4 r.paddedSize
  Stream.writeNat .little 4 r.valueOffset

namespace TableCursors

def empty : TableCursors := ⟨.empty, .empty, .empty⟩

/-- Puts a pair at the ends of the tables of keys and values, and its record behind the others. -/
def add (t : TableCursors) (key : String) (value : Value) : Except IoError TableCursors := do
  let keyOffset ← narrow 16 t.keys.position
  let keys ← grown (Stream.writeText key) t.keys
  let valueOffset ← narrow 32 t.values.position
  let values ← grown (writeValue value) t.values
  let valueEnd ← narrow 32 values.position
  let values ← grown (Stream.writeToAlign tableAlignment 0) values
  let regionEnd ← narrow 32 values.position
  let record : Record := ⟨keyOffset, formatNumber.toNat, value.typeNumber,
    valueEnd - valueOffset, regionEnd - valueOffset, valueOffset⟩
  let entries ← grown (writeRecord record) t.entries
  return ⟨entries, keys, values⟩

def addAll (t : TableCursors) : List (String × Value) → Except IoError TableCursors
  | [] => return t
  | (key, value) :: rest => do
    let added ← t.add key value
    added.addAll rest

/-- The tables of a dictionary, each filled up to its alignment. -/
def ofDictionary (d : Dictionary) : Except IoError TableCursors := do
  let _ ← narrow 32 d.size
  let tables ← empty.addAll d.pairs
  let keys ← grown (Stream.writeToAlign tableAlignment 0) tables.keys
  return { tables with keys }

end TableCursors

/-- Writes the header of so many pairs and copies their tables behind it. -/
def writeFile (version : UInt32) (count : Nat) (tables : TableCursors) : StreamM Unit := do
  let keyTable := headerSize + recordSize * count
  let valueTable := keyTable + tables.keys.position
  Stream.writeBytes magic
  Stream.writeNat .little 4 version.toNat
  Stream.writeNat .little 4 keyTable
  Stream.writeNat .little 4 valueTable
  Stream.writeNat .little 4 count
  discard (Stream.writeStream (tables.entries.seek 0))
  discard (Stream.writeStream (tables.keys.seek 0))
  discard (Stream.writeStream (tables.values.seek 0))

/-- Writes a dictionary and yields the number of bytes written. -/
def encode (version : UInt32) (d : Dictionary) : StreamM Nat :=
  match TableCursors.ofDictionary d with
  | .error e => throw e
  | .ok tables => do
    let start := (← get).position
    writeFile version d.size tables
    return (← get).position - start

/-- The bytes of a PSF file of a dictionary. -/
def encodeToBytes (version : UInt32) (d : Dictionary) : Except IoError (List UInt8) :=
  match encode version d .empty with
  | .error e _ => .error e
  | .ok _ sink => .ok sink.source.content

end PackageAssets.Psf
