import PackageAssets.Proofs.Psf.Fields
import PackageAssets.Proofs.Psf.Layout
import PackageAssets.Proofs.Text.RoundTrip

/-!
# Tables read back

The reader takes the header and the records off the start of the file, and
looks keys and values up in views of the tables. Where a table is known to
hold a key or a value at an offset, just that is found there, whatever stands
around it; text comes back up to its first NUL.
-/
namespace PackageAssets.Psf

/-- A value as it comes back: text ends before its first NUL. -/
def Value.cut : Value → Value
  | text s => text (Text.beforeNul s)
  | value => value

/-- A pair as it comes back. -/
def cutPair (pair : String × Value) : String × Value := (Text.beforeNul pair.1, pair.2.cut)

/-! ### Header and records -/

theorem readHeader_append {s : Stream} (h : s.Sound) {header : Header} (fits : header.Fits)
    {rest : List UInt8} (known : s.ahead = headerBytes header ++ rest) :
    readHeader s = .ok header (s.seek (s.position + 16)) := by
  simp only [headerBytes, List.append_assoc] at known
  have version := Stream.readNat_append h fits.version known
  have known := Stream.ahead_seek_write known
  have keyTable := Stream.readNat_append (h.seek _) fits.keyTable known
  have known := Stream.ahead_seek_write known
  have valueTable := Stream.readNat_append (h.seek _) fits.valueTable known
  have known := Stream.ahead_seek_write known
  have pairCount := Stream.readNat_append (h.seek _) fits.pairCount known
  simp only [Stream.seek_position, Stream.seek_seek, Nat.add_assoc, Nat.reduceAdd]
    at keyTable valueTable pairCount
  unfold readHeader readField
  rw [bind_of_ok version, bind_of_ok keyTable, bind_of_ok valueTable, bind_of_ok pairCount]
  rfl

theorem readByteField {s : Stream} (h : s.Sound) {n : Nat} (small : n < 2 ^ 8)
    {rest : List UInt8} (known : s.ahead = UInt8.ofNat n :: rest) :
    readField 1 s = .ok n (s.seek (s.position + 1)) := by
  have one : ByteOrder.little.write 1 n = [UInt8.ofNat n] := rfl
  rw [← List.singleton_append, ← one] at known
  exact Stream.readNat_append h small known

theorem readRecord_append {s : Stream} (h : s.Sound) {r : Record} (fits : r.Fits)
    {rest : List UInt8} (known : s.ahead = recordBytes r ++ rest) :
    readRecord s = .ok r (s.seek (s.position + recordSize)) := by
  simp only [recordBytes, List.append_assoc, List.cons_append, List.nil_append] at known
  have keyOffset := Stream.readNat_append h fits.keyOffset known
  have known := Stream.ahead_seek_write known
  have format := readByteField (h.seek _) fits.format known
  have known := Stream.ahead_seek_cons known
  have valueType := readByteField (h.seek _) fits.valueType known
  have known := Stream.ahead_seek_cons known
  have valueSize := Stream.readNat_append (h.seek _) fits.valueSize known
  have known := Stream.ahead_seek_write known
  have paddedSize := Stream.readNat_append (h.seek _) fits.paddedSize known
  have known := Stream.ahead_seek_write known
  have valueOffset := Stream.readNat_append (h.seek _) fits.valueOffset known
  simp only [Stream.seek_position, Stream.seek_seek, Nat.add_assoc, Nat.reduceAdd]
    at format valueType valueSize paddedSize valueOffset
  unfold readField at format valueType
  unfold readRecord readField
  rw [bind_of_ok keyOffset, bind_of_ok format, bind_of_ok valueType, bind_of_ok valueSize,
    bind_of_ok paddedSize, bind_of_ok valueOffset]
  rfl

theorem readRecords_append {s : Stream} (h : s.Sound) {records : List Record}
    (fits : ∀ r ∈ records, r.Fits) {rest : List UInt8}
    (known : s.ahead = records.flatMap recordBytes ++ rest) (done : List Record) :
    readRecords records.length done s =
      .ok (done.reverse ++ records) (s.seek (s.position + recordSize * records.length)) := by
  induction records generalizing s done with
  | nil =>
    rw [List.append_nil]
    rfl
  | cons r records ih =>
    obtain ⟨first, others⟩ := List.forall_mem_cons.mp fits
    rw [List.flatMap_cons, List.append_assoc] at known
    have hread := readRecord_append h first known
    have later := Stream.ahead_seek_append known
    rw [length_recordBytes] at later
    rw [List.length_cons, readRecords, bind_of_ok hread, ih (h.seek _) others later,
      List.reverse_cons, List.append_assoc, Stream.seek_position, Stream.seek_seek,
      Nat.add_assoc, Nat.mul_succ, Nat.add_comm recordSize]
    rfl

/-! ### Keys and values -/

theorem readKey_of_visible {table : Stream} (h : table.Sound) (record : Record) {key : String}
    {front rest : List UInt8} (known : table.visible = front ++ (storedKey key ++ rest))
    (place : record.keyOffset = front.length) :
    readKey table record = .ok (Text.beforeNul key) := by
  have size := Stream.length_visible h
  rw [known, List.length_append, List.length_append, storedKey, List.length_append,
    List.length_singleton] at size
  rw [readKey_eq h, place, if_pos (by omega), known, List.drop_left, storedKey, List.append_assoc,
    List.singleton_append, Text.ofBytes_untilZero_utf8]

/-- The stored bytes of a value give the value back. -/
theorem valueOf_stored (value : Value) : valueOf value.typeNumber value.stored = value.cut := by
  cases value with
  | binary bytes => rfl
  | text s => exact congrArg Value.text (Text.ofBytes_untilZero_utf8 s [])
  | int n =>
    have size : (Value.intFormat.encode n.toInt).length = 4 := IntFormat.length_encode _ _
    have modulus : (Value.intFormat.modulus : Int) = 2 ^ 32 := rfl
    have low := n.le_toInt
    have high := n.toInt_lt
    have back := ofInt_decode_intFormat (Value.intFormat.encode n.toInt)
    rw [IntFormat.decode_encode_signed rfl (by omega) (by omega), Int32.ofInt_toInt] at back
    change Value.int (Int32.ofNat (ByteOrder.little.read
      ((Value.intFormat.encode n.toInt).take 4))) = Value.int n
    rw [List.take_of_length_le (Nat.le_of_eq size), ← back]
  | unit => rfl

theorem readValue_of_visible {table : Stream} (h : table.Sound) (record : Record) {value : Value}
    {front rest : List UInt8} (known : table.visible = front ++ (value.stored ++ rest))
    (place : record.valueOffset = front.length) (size : record.valueSize = value.stored.length)
    (kind : record.valueType = value.typeNumber) :
    readValue table record = .ok value.cut := by
  have total := Stream.length_visible h
  rw [known, List.length_append, List.length_append] at total
  have full : ¬(value.typeNumber = 4 ∧ value.stored.length < 4) := by
    rintro ⟨int, few⟩
    cases value with
    | int n => exact absurd few (by simp [Value.stored, IntFormat.length_encode, Value.intFormat])
    | binary | text | unit => cases int
  rw [readValue_eq h, place, size, kind, if_pos (by omega), if_neg full, known, List.drop_left,
    List.take_left, valueOf_stored]

/-- Every pair that was laid out is found again, as long as the tables hold what was laid out. -/
theorem resolve_layOut {keys values : Stream} (soundKeys : keys.Sound) (soundValues : values.Sound)
    {keyOffset valueOffset : Nat} {pairs : List (String × Value)} {records : List Record}
    (laid : layOut keyOffset valueOffset pairs = .ok records)
    {keysBefore keysAfter valuesBefore valuesAfter : List UInt8}
    (keysKnown : keys.visible =
      keysBefore ++ (pairs.flatMap (fun pair => storedKey pair.1) ++ keysAfter))
    (valuesKnown : values.visible = valuesBefore ++ (valueTableBytes pairs ++ valuesAfter))
    (keyPlace : keyOffset = keysBefore.length) (valuePlace : valueOffset = valuesBefore.length)
    (done : List (String × Value)) (r : Decoder) :
    ∃ notes, resolve keys values records done r =
      .ok (done.reverse ++ pairs.map cutPair) { r with notes } := by
  induction pairs generalizing keyOffset valueOffset records keysBefore valuesBefore done r with
  | nil =>
    cases laid
    rw [List.map_nil, List.append_nil]
    exact ⟨r.notes, rfl⟩
  | cons pair pairs ih =>
    obtain ⟨key, value⟩ := pair
    obtain ⟨others, rfl, -, -, later⟩ := layOut_cons_eq_ok laid
    rw [List.flatMap_cons, List.append_assoc] at keysKnown
    rw [valueTableBytes, List.flatMap_cons, List.append_assoc] at valuesKnown
    have hkey := readKey_of_visible soundKeys (recordOf keyOffset valueOffset value) keysKnown
      keyPlace
    have valueKnown : values.visible = valuesBefore ++ (value.stored ++
        (List.replicate (aligned value.stored.length - value.stored.length) 0 ++
          (valueTableBytes pairs ++ valuesAfter))) := by
      rw [valuesKnown, padded_eq, List.append_assoc]
      rfl
    have hvalue := readValue_of_visible soundValues (recordOf keyOffset valueOffset value)
      valueKnown valuePlace rfl rfl
    have keysLater : keys.visible = (keysBefore ++ storedKey key) ++
        (pairs.flatMap (fun pair => storedKey pair.1) ++ keysAfter) := by
      rw [keysKnown, List.append_assoc]
    have valuesLater : values.visible = (valuesBefore ++ padded value.stored) ++
        (valueTableBytes pairs ++ valuesAfter) := by
      rw [valuesKnown, List.append_assoc]
      rfl
    have keyNext : keyOffset + (storedKey key).length = (keysBefore ++ storedKey key).length := by
      rw [keyPlace, List.length_append]
    have valueNext : valueOffset + aligned value.stored.length =
        (valuesBefore ++ padded value.stored).length := by
      rw [valuePlace, List.length_append, length_padded]
    obtain ⟨notes, hrest⟩ := ih later keysLater valuesLater keyNext valueNext
      (cutPair (key, value) :: done) ⟨r.stream, r.found, r.notes ++ [resolvedNote
        (recordOf keyOffset valueOffset value) (cutPair (key, value))]⟩
    rw [List.reverse_cons, List.append_assoc] at hrest
    refine ⟨notes, ?_⟩
    rw [resolve, hkey, hvalue]
    exact (bind_of_ok (Reading.note_eq_ok _ _ _ r)).trans hrest

end PackageAssets.Psf
