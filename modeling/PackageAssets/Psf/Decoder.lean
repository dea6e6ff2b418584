import PackageAssets.Psf.Dictionary
import PackageAssets.Psf.Error
import PackageAssets.Stream.Reading
import PackageAssets.Text.Quoted

/-!
# Reading PSF

The file starts at the start of the stream's window, whatever the position.
The header and the records are read once; keys and values are looked up in
views of the two tables, so an offset that leads out of its table fails.
-/
namespace PackageAssets.Psf

structure Contents where
  header : Option Header
  records : List Record
  deriving DecidableEq, Repr

abbrev Decoder := Reading Contents

abbrev DecoderM := ReadingM Error Contents

def Decoder.start (stream : Stream) : Decoder := Reading.start stream ⟨none, []⟩

/-- Whether a view of `stream` starts with the magic bytes. -/
def probe (stream : Stream) : Bool :=
  match stream.wholeSlice with
  | .error _ => false
  | .ok view =>
    match Stream.readExact magic.length view with
    | .ok found _ => found = magic
    | .error _ _ => false

def readField (width : Nat) : StreamM Nat := Stream.readNat .little width

def readHeader : StreamM Header := do
  let version ← readField 4
  let keyTable ← readField 4
  let valueTable ← readField 4
  let pairCount ← readField 4
  return ⟨version, keyTable, valueTable, pairCount⟩

def readRecord : StreamM Record := do
  let keyOffset ← readField 2
  let format ← readField 1
  let valueType ← readField 1
  let valueSize ← readField 4
  let paddedSize ← readField 4
  let valueOffset ← readField 4
  return ⟨keyOffset, format, valueType, valueSize, paddedSize, valueOffset⟩

/-- Reads records onto those so far in reverse. -/
def readRecords : (count : Nat) → (done : List Record) → StreamM (List Record)
  | 0, done => pure done.reverse
  | count + 1, done => do
    let record ← readRecord
    readRecords count (record :: done)

/-- A version as it is noted: four digits or more. -/
def versionText (version : Nat) : String := "0x" ++ Hex.upper 4 version

/-- Reads the header and the records, unless that was done before. -/
def decodeHeaders : DecoderM Unit := do
  if (← Reading.soFar).header.isSome then return
  Reading.onStream (Stream.setPosition 0)
  let found ← Reading.onStream (Stream.readExact magic.length)
  if found ≠ magic then throw (.wrongMagic found)
  let header ← Reading.onStream readHeader
  Reading.note .debug .tableReader s!"PSF version: {versionText header.version}"
  Reading.note .debug .tableReader s!"PSF key table: {header.keyTable}"
  Reading.note .debug .tableReader s!"PSF value table: {header.valueTable}"
  Reading.note .debug .tableReader s!"PSF entries: {header.pairCount}"
  let needed := header.pairCount * recordSize
  let remaining := (← get).stream.remaining
  if remaining < needed then
    throw (.io (.notEnough (headerSize + needed) (headerSize + remaining)))
  let records ← Reading.onStream (readRecords header.pairCount [])
  Reading.modifyFound fun _ => ⟨some header, records⟩

/-- The outcome of a step on a view that is not used again. -/
def onView {α : Type} (step : StreamM α) (view : Stream) : Except Error α :=
  match step view with
  | .ok a _ => .ok a
  | .error e _ => .error (.io e)

def sliceFrom (table : Stream) (lower upper : Edge) : Except Error Stream :=
  match table.slice lower upper with
  | .ok view => .ok view
  | .error e => .error (.io e)

/-- The key of a record: text in the key table up to a zero byte or its end. -/
def readKey (table : Stream) (record : Record) : Except Error String := do
  if table.length ≤ record.keyOffset then throw (.keyOutOfRange record.keyOffset table.length)
  let view ← sliceFrom table (.included record.keyOffset) .unbounded
  onView Stream.readText view

def readValue (table : Stream) (record : Record) : Except Error Value := do
  let stop := record.valueOffset + record.valueSize
  if table.length < stop then
    throw (.valueOutOfRange record.valueOffset record.valueSize table.length)
  let view ← sliceFrom table (.included record.valueOffset) (.excluded stop)
  match record.valueType with
  | 0 => return .binary (← onView Stream.readRemaining view)
  | 2 => return .text (← onView Stream.readText view)
  | 4 => return .int (Int32.ofInt (← onView (Stream.readInt Value.intFormat) view))
  | _ => return .unit

/-- A value as it is noted. -/
def Value.inspect : Value → String
  | .binary bytes => "Binary(" ++ decimalList bytes ++ ")"
  | .text s => "Text(" ++ Text.quote s ++ ")"
  | .int n => s!"Int({n.toInt})"
  | .unit => "Unit"

/-- Looks up records in the two tables, onto the pairs so far in reverse. -/
def resolve (keys values : Stream) :
    List Record → (done : List (String × Value)) → DecoderM (List (String × Value))
  | [], done => pure done.reverse
  | record :: rest, done => do
    match readKey keys record, readValue values record with
    | .error e, _ => throw e
    | _, .error e => throw e
    | .ok key, .ok value => do
      let shown := Value.inspect value
      Reading.note .trace .tableReader s!"{key} (type {record.valueType}) = {shown}"
      resolve keys values rest ((key, value) :: done)

/-- The keys and values in the order of the records, repeated keys included. -/
def decodePairs : DecoderM (List (String × Value)) := do
  decodeHeaders
  let contents ← Reading.soFar
  match contents.header with
  | none => throw (.io (.misuse "missing header"))
  | some header => do
    let stream := (← get).stream
    let tableEnd := max header.keyTable header.valueTable
    if stream.length < tableEnd then throw (.io (.notEnough tableEnd stream.length))
    match sliceFrom stream (.included header.keyTable) .unbounded,
        sliceFrom stream (.included header.valueTable) .unbounded with
    | .ok keys, .ok values => resolve keys values contents.records []
    | .error e, _ => throw e
    | _, .error e => throw e

/-- Inserts pairs in order; a replaced value is noted. -/
def collect : List (String × Value) → Dictionary → DecoderM Dictionary
  | [], d => pure d
  | (key, value) :: rest, d => do
    match d.get? key with
    | none => pure ()
    | some previous =>
      let shown := Value.inspect previous
      Reading.note .warn .tableReader s!"Duplicate PSF key {key}, replacing {shown}"
    collect rest (d.insert key value)

/-- The dictionary in the file; the last of several pairs with one key counts. -/
def decode : DecoderM Dictionary := do
  let pairs ← decodePairs
  collect pairs .empty

end PackageAssets.Psf
