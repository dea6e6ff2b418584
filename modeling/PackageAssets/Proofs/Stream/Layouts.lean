import PackageAssets.Proofs.Stream.Storing

/-!
# Records of integers and texts

A record is written field by field at the position of a stream, each field by the
writer of its type, and read back from there by the matching accessors. Every
accessor takes the bytes its writer has put, so that none of them shifts the
others, and where the record ends all of them have been read.
-/
namespace PackageAssets

namespace IntFormat

/-- The number is one of the format's. -/
def Holds (f : IntFormat) (n : Int) : Prop :=
  if f.signed then -f.modulus ≤ 2 * n ∧ 2 * n < f.modulus else 0 ≤ n ∧ n < f.modulus

instance (f : IntFormat) (n : Int) : Decidable (f.Holds n) :=
  inferInstanceAs (Decidable (if f.signed then _ else _))

/-- What is stored is the number modulo the size of the format. -/
theorem read_encode (f : IntFormat) (n : Int) :
    (f.order.read (f.encode n) : Int) = n % (f.modulus : Int) := by
  have positive : 0 < f.modulus := Nat.pow_pos (by decide)
  have above := Int.emod_nonneg n (Int.natCast_ne_zero.mpr (Nat.ne_of_gt positive))
  have below := Int.emod_lt_of_pos n (Int.natCast_pos.mpr positive)
  have fits : (n % (f.modulus : Int)).toNat < 256 ^ f.width := by
    rw [← modulus]
    omega
  change ((f.order.read (f.order.write f.width (n % (f.modulus : Int)).toNat) : Nat) : Int) = _
  rw [ByteOrder.read_write f.order fits]
  exact Int.toNat_of_nonneg above

theorem decode_encode {f : IntFormat} {n : Int} (holds : f.Holds n) :
    f.decode (f.encode n) = n := by
  rw [Holds] at holds
  split at holds
  case isTrue signed => exact decode_encode_signed signed holds.1 holds.2
  case isFalse unsigned =>
    have stored := f.read_encode n
    rw [Int.emod_eq_of_lt holds.1 holds.2] at stored
    rw [decode, interpret, if_neg fun signed => unsigned signed.1]
    exact stored

/-- Three bytes keep the low 24 bits, and are read with or without a sign. -/
theorem decode_three (order : ByteOrder) (signed : Bool) (n : Nat) :
    decode ⟨3, signed, order⟩ (encode ⟨3, false, order⟩ n) =
      if signed then (BitVec.ofNat 24 n).toInt else (n % 2 ^ 24 : Nat) := by
  have stored : (order.read (encode ⟨3, false, order⟩ n) : Int) = (n : Int) % (2 ^ 24 : Nat) :=
    read_encode ⟨3, false, order⟩ n
  rw [decode, interpret]
  change (if signed = true ∧ 2 ^ 24 ≤ 2 * order.read _ then (order.read _ : Int) - (2 ^ 24 : Nat)
    else order.read _) = _
  cases signed with
  | false =>
    rw [stored]
    simp
  | true =>
    rw [BitVec.toInt_eq_toNat_cond, BitVec.toNat_ofNat]
    simp only [true_and, if_true]
    split <;> split <;> omega

end IntFormat

/-- Zeros behind a text do not lengthen it. -/
theorem Text.untilZero_rightpad (front : List UInt8) (count : Nat) :
    Text.untilZero (front.rightpad count 0) = Text.untilZero front := by
  rw [List.rightpad]
  generalize count - front.length = zeros
  induction front with
  | nil => cases zeros <;> rfl
  | cons b rest ih =>
    by_cases zero : b = 0
    · simp [Text.untilZero, zero]
    · simpa [Text.untilZero, zero] using ih

/-- Actions on a stream, one after another, and what they answer. -/
def Action.runEach : List Action → Stream → List Answer × Stream
  | [], s => ([], s)
  | action :: actions, s =>
    let (first, after) := action.run s
    let (others, last) := runEach actions after
    (first :: others, last)

/-- A field of a record, with the accessor it is to be read by. -/
inductive Field where
  /-- An integer, read by the accessor that fails at the end or by the one that yields zero. -/
  | int (format : IntFormat) (value : Int) (holds : format.Holds value) (orZero : Bool)
  /-- The low 24 bits of a number, read with or without a sign. -/
  | low24 (order : ByteOrder) (value : UInt32) (signed : Bool)
  | text (letters : String) (count : Nat)

namespace Field

def writer : Field → Action
  | int format value _ _ => .writeInt format value
  | low24 order value _ => .writeInt ⟨3, false, order⟩ value.toNat
  | text letters count => .writeTextFixed letters count

def reader : Field → Action
  | int format _ _ false => .readInt format
  | int format _ _ true => .readIntOrZero format
  | low24 order _ signed => .readInt ⟨3, signed, order⟩
  | text _ count => .readTextFixed count

/-- What the reader is to answer. -/
def found : Field → Answer
  | int _ value _ _ => .number value
  | low24 _ value false => .number (value.toNat % 2 ^ 24 : Nat)
  | low24 _ value true => .number (BitVec.ofNat 24 value.toNat).toInt
  | text letters count => .text (Text.ofBytes (Text.untilZero ((Text.utf8 letters).take count)))

def size : Field → Nat
  | int format _ _ _ => format.width
  | low24 .. => 3
  | text _ count => count

/-- The bytes in which a field is stored. -/
def bytes : Field → List UInt8
  | int format value _ _ => format.encode value
  | low24 order value _ => IntFormat.encode ⟨3, false, order⟩ value.toNat
  | text letters count => ((Text.utf8 letters).take count).rightpad count 0

theorem length_bytes (f : Field) : f.bytes.length = f.size := by
  cases f with
  | int format value => exact format.length_encode value
  | low24 order value => exact IntFormat.length_encode _ _
  | text letters count =>
    simp only [bytes, Field.size, List.rightpad, List.length_append, List.length_take,
      List.length_replicate]
    omega

/-- How many bytes a record takes. -/
def total : List Field → Nat
  | [] => 0
  | f :: layout => f.size + total layout

theorem length_flatMap_bytes (layout : List Field) :
    (layout.flatMap bytes).length = total layout := by
  induction layout with
  | nil => rfl
  | cons f layout ih => rw [List.flatMap_cons, List.length_append, f.length_bytes, ih, total]

theorem run_writer (f : Field) (s : Stream) :
    f.writer.run s = Answer.ofResult .ofUnit (Stream.writeBytes f.bytes s) := by
  cases f <;> rfl

end Field

namespace Stream

variable {s t : Stream} {rest : List UInt8}

/-- An exact read of bytes known to be ahead, of which something is made. -/
theorem readExact_bind_front {α : Type} (held : s.Held) {front : List UInt8}
    (known : s.ahead = front ++ rest) (made : List UInt8 → α) :
    (readExact front.length >>= fun bytes => pure (made bytes)) s =
      .ok (made front) (s.seek (s.position + front.length)) := by
  rw [readExact_bind_of_held held, known, List.length_append, if_pos (Nat.le_add_right _ _),
    List.take_left]

theorem readInt_front (held : s.Held) (format : IntFormat) {front : List UInt8}
    (size : front.length = format.width) (known : s.ahead = front ++ rest) :
    readInt format s = .ok (format.decode front) (s.seek (s.position + format.width)) := by
  rw [← size, ← readExact_bind_front held known, size]
  rfl

/-- A field that is ahead is read as what it was written for. -/
theorem run_reader (held : s.Held) {f : Field} (known : s.ahead = f.bytes ++ rest) :
    f.reader.run s = (f.found, s.seek (s.position + f.size)) := by
  cases f with
  | int format value holds orZero =>
    have whole := readInt_front held format (format.length_encode value) known
    rw [IntFormat.decode_encode holds] at whole
    cases orZero with
    | false => simp only [Field.reader, Action.run, whole]; rfl
    | true => simp only [Field.reader, Action.run, readIntOrZero, whole]; rfl
  | low24 order value signed =>
    have whole := readInt_front held ⟨3, signed, order⟩
      (IntFormat.length_encode ⟨3, false, order⟩ value.toNat) known
    rw [IntFormat.decode_three] at whole
    simp only [Field.reader, Action.run, whole]
    cases signed <;> rfl
  | text letters count =>
    have whole := readExact_bind_front held known fun bytes => Text.ofBytes (Text.untilZero bytes)
    rw [Field.length_bytes] at whole
    have read : readTextFixed count s = _ := whole
    simp only [Field.reader, Action.run, read, Field.bytes, Text.untilZero_rightpad]
    rfl

/-- A record is written where there is room for all of it. -/
theorem runEach_writers (editable : s.Editable) {layout : List Field}
    (room : s.RoomFor (layout.flatMap Field.bytes).length) :
    ∃ t, Action.runEach (layout.map Field.writer) s = (layout.map fun _ => .done, t) ∧
      s.Stored (layout.flatMap Field.bytes) t := by
  induction layout generalizing s with
  | nil => exact ⟨s, rfl, Stored.refl s⟩
  | cons f layout ih =>
    rw [List.flatMap_cons, List.length_append] at room
    have before := room.mono (Nat.le_add_right f.bytes.length _)
    obtain ⟨t, done⟩ := (writes_writeBytes f.bytes).done editable before
    have stored := (writes_writeBytes f.bytes).stored done
    obtain ⟨u, others, behind⟩ := ih (stored.editable editable before)
      ((stored.roomFor_iff _).mpr room)
    refine ⟨u, ?_, stored.trans behind⟩
    rw [List.map_cons, Action.runEach, Field.run_writer, done]
    simp only [Answer.ofResult, others]
    rfl

/-- A record that is ahead is read back field by field. -/
theorem runEach_readers (held : s.Held) {layout : List Field}
    (known : s.ahead = layout.flatMap Field.bytes ++ rest) :
    Action.runEach (layout.map Field.reader) s =
      (layout.map Field.found, s.seek (s.position + Field.total layout)) := by
  induction layout generalizing s with
  | nil => rfl
  | cons f layout ih =>
    rw [List.flatMap_cons, List.append_assoc] at known
    have there : f.size ≤ s.ahead.length := by
      rw [known, List.length_append, f.length_bytes]
      exact Nat.le_add_right _ _
    have later := ahead_seek_append known
    rw [f.length_bytes] at later
    rw [List.map_cons, Action.runEach, run_reader held known]
    simp only [ih (held.past there) later, seek_position, seek_seek, Nat.add_assoc, List.map_cons,
      Field.total]

/-- The answer of an accessor, by the bytes ahead. -/
theorem run_readInt (held : s.Held) (format : IntFormat) :
    ((Action.readInt format).run s).1 =
        (if format.width ≤ s.ahead.length then
          .number (format.decode (s.ahead.take format.width))
        else .failed (.notEnough format.width s.ahead.length)) ∧
      ((Action.readIntOrZero format).run s).1 =
        .number (if format.width ≤ s.ahead.length then
          format.decode (s.ahead.take format.width) else 0) := by
  have read : readInt format s = _ := readExact_bind_of_held held format.width format.decode
  rw [Action.run, Action.run, readIntOrZero, read]
  split <;> exact ⟨rfl, rfl⟩

/--
Records are read back as they were written, by the accessors of the same types from where the
first field was put, and reading ends where writing did. Nothing outside a record is changed. A
big endian accessor is the little endian one on the reversed bytes.
-/
theorem records_read_back :
    (∀ (s : Stream) (layout : List Field), s.Editable → s.RoomFor (Field.total layout) →
      ∃ t, Action.runEach (layout.map Field.writer) s = (layout.map fun _ => .done, t) ∧
        Action.runEach (layout.map Field.reader) (t.seek s.position) =
          (layout.map Field.found, t) ∧
        t.position = s.position + Field.total layout ∧
        s.Filled (layout.flatMap Field.bytes) t) ∧
    ∀ (s t : Stream) (width : Nat) (signed : Bool), s.Held → t.Held →
      t.ahead.take width = (s.ahead.take width).reverse →
      ((Action.readInt ⟨width, signed, .big⟩).run s).1 =
          ((Action.readInt ⟨width, signed, .little⟩).run t).1 ∧
        ((Action.readIntOrZero ⟨width, signed, .big⟩).run s).1 =
          ((Action.readIntOrZero ⟨width, signed, .little⟩).run t).1 := by
  constructor
  · intro s layout editable room
    rw [← Field.length_flatMap_bytes] at room
    obtain ⟨t, done, stored⟩ := runEach_writers editable room
    have position := stored.position
    rw [Field.length_flatMap_bytes] at position
    refine ⟨t, done, ?_, position, stored.filled⟩
    have held := stored.held_there editable room
    obtain ⟨rest, known⟩ := stored.ahead_there room.1 editable.counted
    rw [runEach_readers held known, seek_position, ← position, seek_seek, seek_self]
  · intro s t width signed sHeld tHeld mirrored
    have sizes := congrArg List.length mirrored
    rw [List.length_reverse, List.length_take, List.length_take] at sizes
    obtain ⟨sRead, sDefault⟩ := run_readInt sHeld ⟨width, signed, .big⟩
    obtain ⟨tRead, tDefault⟩ := run_readInt tHeld ⟨width, signed, .little⟩
    rw [sRead, sDefault, tRead, tDefault]
    by_cases enough : width ≤ s.ahead.length
    · have both : width ≤ t.ahead.length := by omega
      have same : IntFormat.decode ⟨width, signed, .little⟩ (t.ahead.take width) =
          IntFormat.decode ⟨width, signed, .big⟩ (s.ahead.take width) := by
        rw [mirrored]
        rfl
      simp only [enough, both, same, if_true, and_self]
    · have both : t.ahead.length = s.ahead.length := by omega
      simp only [both, enough, if_false, and_self]

/-- A record with fields of every kind. -/
def sampleRecord : List Field :=
  [.int ⟨2, true, .big⟩ (-2) (by decide) false,
    .int ⟨4, false, .little⟩ 4000000000 (by decide) true,
    .low24 .big 0xFF800001 true, .low24 .little 0xFF800001 false, .text "abc" 2, .text "ab" 4]

/-- A slice with just enough room for it. -/
def sampleSlice : Stream := (⟨.ofBytes (List.replicate 24 9), .start (.slice 3 23)⟩ : Stream).seek 2

theorem editable_sampleSlice : sampleSlice.Editable :=
  OnVector.editable ⟨⟨⟨24, rfl⟩, by decide, by decide⟩, by decide⟩

theorem records_read_back_sampleRecord :
    (∃ t, Action.runEach (sampleRecord.map Field.writer) sampleSlice =
        ([.done, .done, .done, .done, .done, .done], t) ∧
      Action.runEach (sampleRecord.map Field.reader) (t.seek 2) =
        ([.number (-2), .number 4000000000, .number (-8388607), .number 8388609, .text "ab",
          .text "ab"], t) ∧
      sampleSlice.Filled (sampleRecord.flatMap Field.bytes) t) ∧
    ((Action.readInt ⟨2, true, .big⟩).run (ofBytes [255, 254])).1 =
      ((Action.readInt ⟨2, true, .little⟩).run (ofBytes [254, 255])).1 := by
  have room : sampleSlice.RoomFor (Field.total sampleRecord) :=
    ⟨(by decide : 2 + 18 ≤ 23 - 3), (by decide : 5 + 18 ≤ Source.longestVector)⟩
  obtain ⟨t, written, read, -, filled⟩ :=
    records_read_back.1 sampleSlice sampleRecord editable_sampleSlice room
  refine ⟨⟨t, written, ?_, filled⟩, ?_⟩
  · exact read
  · exact (records_read_back.2 (ofBytes [255, 254]) (ofBytes [254, 255]) 2 true
      (sound_ofBytes (by decide)).held (sound_ofBytes (by decide)).held rfl).1

/-- A growing cursor on nothing, at the largest count. -/
def topmost : Stream := ⟨.empty, ⟨.root, Count.top, .none⟩⟩

/-- Not every position of a growing cursor has room for a record: the end of a byte at the largest
count is no count. -/
theorem topmost_refuses :
    Action.runEach ([Field.int ⟨1, false, .little⟩ 1 (by decide) false].map Field.writer) topmost =
      ([.failed .positionOverflow], topmost) := rfl

end Stream

end PackageAssets
