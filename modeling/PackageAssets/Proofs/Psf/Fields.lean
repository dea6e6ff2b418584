import PackageAssets.Proofs.Stream.Takes
import PackageAssets.Proofs.Stream.Terminated
import PackageAssets.Psf.Decoder

/-!
# What the bytes of a file say

The header, the records, the keys and the values of a PSF file are numbers and
runs of bytes at fixed offsets. They are given here for any bytes, without an
order of reading and without a check; `WellFormed` says which files they make
sense of. The readers of the header and of the records take just these fields.
-/
namespace PackageAssets.Psf

/-- The number in `width` bytes at an offset. -/
def numberAt (bytes : List UInt8) (offset width : Nat) : Nat :=
  ByteOrder.little.read ((bytes.drop offset).take width)

def headerAt (bytes : List UInt8) (offset : Nat) : Header where
  version := numberAt bytes offset 4
  keyTable := numberAt bytes (offset + 4) 4
  valueTable := numberAt bytes (offset + 8) 4
  pairCount := numberAt bytes (offset + 12) 4

def recordAt (bytes : List UInt8) (offset : Nat) : Record where
  keyOffset := numberAt bytes offset 2
  format := numberAt bytes (offset + 2) 1
  valueType := numberAt bytes (offset + 3) 1
  valueSize := numberAt bytes (offset + 4) 4
  paddedSize := numberAt bytes (offset + 8) 4
  valueOffset := numberAt bytes (offset + 12) 4

/-- The header behind the magic bytes of a file. -/
def headerIn (file : List UInt8) : Header := headerAt file magic.length

/-- The records behind the header of a file. -/
def recordsIn (file : List UInt8) : List Record :=
  (List.range (headerIn file).pairCount).map fun i => recordAt file (headerSize + recordSize * i)

/-- Text from where a record says its key is to the first zero, or to the end of the file. -/
def keyIn (file : List UInt8) (record : Record) : String :=
  Text.ofBytes (Text.untilZero (file.drop ((headerIn file).keyTable + record.keyOffset)))

/-- The bytes where a record says its value is. -/
def storedIn (file : List UInt8) (record : Record) : List UInt8 :=
  (file.drop ((headerIn file).valueTable + record.valueOffset)).take record.valueSize

/-- The value that stored bytes are, for the number of a kind. -/
def valueOf (valueType : Nat) (stored : List UInt8) : Value :=
  match valueType with
  | 0 => .binary stored
  | 2 => .text (Text.ofBytes (Text.untilZero stored))
  | 4 => .int (Int32.ofNat (ByteOrder.little.read (stored.take 4)))
  | _ => .unit

def valueIn (file : List UInt8) (record : Record) : Value :=
  valueOf record.valueType (storedIn file record)

def pairIn (file : List UInt8) (record : Record) : String × Value :=
  (keyIn file record, valueIn file record)

/-- The keys and values of a file, in the order of its records. -/
def pairsIn (file : List UInt8) : List (String × Value) := (recordsIn file).map (pairIn file)

/-- A record that leads into both tables of a file, to enough bytes for its value. -/
structure Record.Within (record : Record) (file : List UInt8) : Prop where
  key : record.keyOffset < file.length - (headerIn file).keyTable
  value : record.valueOffset + record.valueSize ≤ file.length - (headerIn file).valueTable
  int : record.valueType = 4 → 4 ≤ record.valueSize

/-- The file starts as a PSF file does, and is long enough for the records it announces. -/
structure Headed (file : List UInt8) : Prop where
  long : headerSize ≤ file.length
  named : magic <+: file
  counted : headerSize + recordSize * (headerIn file).pairCount ≤ file.length

structure WellFormed (file : List UInt8) : Prop extends Headed file where
  keyTable : (headerIn file).keyTable ≤ file.length
  valueTable : (headerIn file).valueTable ≤ file.length
  records : ∀ record ∈ recordsIn file, record.Within file

instance (record : Record) (file : List UInt8) : Decidable (record.Within file) :=
  decidable_of_iff
    (record.keyOffset < file.length - (headerIn file).keyTable ∧
      record.valueOffset + record.valueSize ≤ file.length - (headerIn file).valueTable ∧
      (record.valueType = 4 → 4 ≤ record.valueSize))
    ⟨fun ⟨key, value, int⟩ => ⟨key, value, int⟩, fun ⟨key, value, int⟩ => ⟨key, value, int⟩⟩

instance (file : List UInt8) : Decidable (Headed file) :=
  decidable_of_iff
    (headerSize ≤ file.length ∧ magic <+: file ∧
      headerSize + recordSize * (headerIn file).pairCount ≤ file.length)
    ⟨fun ⟨long, named, counted⟩ => ⟨long, named, counted⟩,
      fun ⟨long, named, counted⟩ => ⟨long, named, counted⟩⟩

instance (file : List UInt8) : Decidable (WellFormed file) :=
  decidable_of_iff
    (Headed file ∧ (headerIn file).keyTable ≤ file.length ∧
      (headerIn file).valueTable ≤ file.length ∧ ∀ record ∈ recordsIn file, record.Within file)
    ⟨fun ⟨headed, keys, values, records⟩ => ⟨headed, keys, values, records⟩,
      fun ⟨headed, keys, values, records⟩ => ⟨headed, keys, values, records⟩⟩

/-! ### The readers of these fields -/

theorem numberAt_zero (bytes : List UInt8) (width : Nat) :
    numberAt bytes 0 width = ByteOrder.little.read (bytes.take width) := rfl

theorem numberAt_drop (bytes : List UInt8) (start offset width : Nat) :
    numberAt (bytes.drop start) offset width = numberAt bytes (start + offset) width := by
  rw [numberAt, List.drop_drop, numberAt]

theorem numberAt_take (bytes : List UInt8) {stop offset width : Nat}
    (inside : offset + width ≤ stop) :
    numberAt (bytes.take stop) offset width = numberAt bytes offset width := by
  rw [numberAt, List.drop_take, List.take_take, Nat.min_eq_left (by omega), numberAt]

theorem headerAt_take_drop (bytes : List UInt8) (start : Nat) :
    headerAt ((bytes.drop start).take 16) 0 = headerAt bytes start := by
  simp only [headerAt, numberAt_take, numberAt_drop, Nat.reduceAdd, Nat.reduceLeDiff, Nat.add_zero]

theorem recordAt_take_drop (bytes : List UInt8) (start : Nat) :
    recordAt ((bytes.drop start).take recordSize) 0 = recordAt bytes start := by
  simp only [recordAt, recordSize, numberAt_take, numberAt_drop, Nat.reduceAdd, Nat.reduceLeDiff,
    Nat.add_zero]

theorem takes_readField (width : Nat) :
    Stream.Takes (readField width) width ByteOrder.little.read := Stream.takes_readNat .little width

theorem takes_readHeader : Stream.Takes readHeader 16 fun bytes => headerAt bytes 0 := by
  refine ((takes_readField 4).bind fun version => (takes_readField 4).bind fun keyTable =>
    (takes_readField 4).bind fun valueTable => (takes_readField 4).bind fun pairCount =>
      Stream.takes_pure _).congr ?_
  intro bytes _
  simp only [headerAt, ← numberAt_zero, numberAt_drop, Nat.reduceAdd, Nat.add_zero]

theorem takes_readRecord : Stream.Takes readRecord recordSize fun bytes => recordAt bytes 0 := by
  refine ((takes_readField 2).bind fun keyOffset => (takes_readField 1).bind fun format =>
    (takes_readField 1).bind fun valueType => (takes_readField 4).bind fun valueSize =>
      (takes_readField 4).bind fun paddedSize => (takes_readField 4).bind fun valueOffset =>
        Stream.takes_pure _).congr ?_
  intro bytes _
  simp only [recordAt, ← numberAt_zero, numberAt_drop, Nat.reduceAdd, Nat.add_zero]

theorem takes_readRecords (count : Nat) (done : List Record) :
    Stream.Takes (readRecords count done) (recordSize * count) fun bytes =>
      done.reverse ++ (List.range count).map fun i => recordAt bytes (recordSize * i) := by
  induction count generalizing done with
  | zero => exact (Stream.takes_pure done.reverse).congr fun _ _ => (List.append_nil _).symm
  | succ count ih =>
    have width : recordSize * (count + 1) = recordSize + recordSize * count := by
      rw [Nat.mul_succ, Nat.add_comm]
    rw [width]
    refine (takes_readRecord.bind fun record => ih (record :: done)).congr ?_
    intro bytes _
    have first : recordAt (bytes.take recordSize) 0 = recordAt bytes 0 := recordAt_take_drop bytes 0
    have later (i : Nat) : recordAt (bytes.drop recordSize) (recordSize * i) =
        recordAt bytes (recordSize * (i + 1)) := by
      rw [← recordAt_take_drop, List.drop_drop, recordAt_take_drop, Nat.mul_succ, Nat.add_comm]
    rw [first, List.reverse_cons, List.append_assoc, List.range_succ_eq_map, List.map_cons,
      List.map_map]
    simp only [later]
    rfl

/-! ### Keys and values in their tables -/

theorem onView_of_ok {α : Type} {step : StreamM α} {view after : Stream} {a : α}
    (h : step view = .ok a after) : onView step view = .ok a := by
  rw [onView, h]

theorem onView_of_error {α : Type} {step : StreamM α} {view after : Stream} {e : IoError}
    (h : step view = .error e after) : onView step view = .error (.io e) := by
  rw [onView, h]

theorem readKey_eq {table : Stream} (h : table.Sound) (record : Record) :
    readKey table record =
      if record.keyOffset < table.length then
        .ok (Text.ofBytes (Text.untilZero (table.visible.drop record.keyOffset)))
      else .error (.keyOutOfRange record.keyOffset table.length) := by
  by_cases inside : record.keyOffset < table.length
  · obtain ⟨view, hslice, sound, -, ahead⟩ := Stream.exists_view_from h (Nat.le_of_lt inside)
    have read := Stream.readText_eq sound
    rw [ahead] at read
    rw [readKey, if_neg (Nat.not_le.mpr inside), if_pos inside, sliceFrom, hslice]
    exact onView_of_ok read
  · rw [readKey, if_pos (Nat.not_lt.mp inside), if_neg inside]
    rfl

/-- A signed number of four bytes is the number modulo the size of the word. -/
theorem ofInt_decode_intFormat (bytes : List UInt8) :
    Int32.ofInt (Value.intFormat.decode bytes) = Int32.ofNat (ByteOrder.little.read bytes) := by
  have modulus : (Value.intFormat.modulus : Int) = 2 ^ 32 := rfl
  change Int32.ofInt (Value.intFormat.interpret (ByteOrder.little.read bytes)) = _
  generalize ByteOrder.little.read bytes = n
  apply Int32.toBitVec_inj.mp
  apply BitVec.eq_of_toNat_eq
  change ((BitVec.ofInt 32 (Value.intFormat.interpret n)).toNat = (BitVec.ofNat 32 n).toNat)
  rw [BitVec.toNat_ofInt, BitVec.toNat_ofNat, IntFormat.interpret, modulus]
  split <;> omega

/-- A value on a view of just its bytes; an integer may find too few of them. -/
theorem valueOn_view {view : Stream} (h : view.Sound) (valueType : Nat) :
    (match valueType with
      | 0 => return .binary (← onView Stream.readRemaining view)
      | 2 => return .text (← onView Stream.readText view)
      | 4 => return .int (Int32.ofInt (← onView (Stream.readInt Value.intFormat) view))
      | _ => return .unit : Except Error Value) =
      if valueType = 4 ∧ view.ahead.length < 4 then .error (.io (.notEnough 4 view.ahead.length))
      else .ok (valueOf valueType view.ahead) := by
  split
  case h_1 =>
    rw [onView_of_ok (Stream.readRemaining_eq h)]
    rfl
  case h_2 =>
    rw [onView_of_ok (Stream.readText_eq h)]
    rfl
  case h_3 =>
    have read := Stream.readInt_eq h Value.intFormat
    by_cases enough : Value.intFormat.width ≤ view.ahead.length
    · rw [if_pos enough] at read
      rw [onView_of_ok read, if_neg fun few => Nat.not_lt.mpr enough few.2]
      exact congrArg (fun n => Except.ok (Value.int n)) (ofInt_decode_intFormat _)
    · rw [if_neg enough] at read
      rw [onView_of_error read, if_pos ⟨rfl, Nat.not_le.mp enough⟩]
      rfl
  case h_4 binary text int =>
    rw [if_neg fun few => int few.1, valueOf]
    · rfl
    · assumption
    · assumption
    · assumption

theorem readValue_eq {table : Stream} (h : table.Sound) (record : Record) :
    readValue table record =
      if record.valueOffset + record.valueSize ≤ table.length then
        if record.valueType = 4 ∧ record.valueSize < 4 then
          .error (.io (.notEnough 4 record.valueSize))
        else .ok (valueOf record.valueType
          ((table.visible.drop record.valueOffset).take record.valueSize))
      else .error (.valueOutOfRange record.valueOffset record.valueSize table.length) := by
  by_cases inside : record.valueOffset + record.valueSize ≤ table.length
  · obtain ⟨view, hslice, sound, ahead⟩ :=
      Stream.exists_view_between h (Nat.le_add_right _ record.valueSize) inside
    have size := Stream.length_visible h
    rw [Nat.add_sub_cancel_left] at ahead
    have length : view.ahead.length = record.valueSize := by
      rw [ahead, List.length_take, List.length_drop]
      omega
    rw [readValue]
    dsimp only
    rw [if_neg (Nat.not_lt.mpr inside), if_pos inside, sliceFrom, hslice, ← ahead, ← length]
    exact valueOn_view sound record.valueType
  · rw [readValue]
    dsimp only
    rw [if_pos (Nat.not_le.mp inside), if_neg inside]
    rfl

/-- What the reader notes of a pair it has looked up. -/
def resolvedNote (record : Record) (pair : String × Value) : Note :=
  ⟨.trace, .tableReader, s!"{pair.1} (type {record.valueType}) = {pair.2.inspect}"⟩

/-! ### The pairs behind the headers -/

/-- What is left to do once the headers were found. -/
def takePairs (header : Header) (records : List Record) : DecoderM (List (String × Value)) := do
  let stream := (← get).stream
  let tableEnd := max header.keyTable header.valueTable
  if stream.length < tableEnd then throw (.io (.notEnough tableEnd stream.length))
  match sliceFrom stream (.included header.keyTable) .unbounded,
      sliceFrom stream (.included header.valueTable) .unbounded with
  | .ok keys, .ok values => resolve keys values records []
  | .error e, _ => throw e
  | _, .error e => throw e

/-- What is left to do once the headers were read. -/
def readFound : DecoderM (List (String × Value)) := do
  let contents ← Reading.soFar
  match contents.header with
  | none => throw (.io (.misuse "missing header"))
  | some header => takePairs header contents.records

theorem decodePairs_eq : decodePairs = (decodeHeaders >>= fun _ => readFound) := rfl

theorem readFound_eq {r : Decoder} {header : Header} (known : r.found.header = some header) :
    readFound r = takePairs header r.found.records r := by
  rw [readFound, bind_of_ok (Reading.soFar_eq_ok r), known]

end PackageAssets.Psf
