import PackageAssets.Bmp.Decoder
import PackageAssets.Proofs.Bytes.Stored
import PackageAssets.Proofs.Stream.Reaching

/-!
# The headers of a BMP

The headers are read exactly when they are there and are those of an image that
can be read, and when the palette is there for an image that has one. Their
fields are read from where the reader starts; the palette, and then the image,
are looked for where the fields say, counted from the start of the window. A BMP
is known by its magic bytes and by the size of its information header, which are
looked at on the way.
-/
namespace PackageAssets.Bmp

open Reading

/-- A field of the headers. -/
def fieldAt (bytes : List UInt8) (offset width : Nat) : Nat :=
  ByteOrder.little.readAt bytes offset width

/-- A field that carries a sign. -/
def signedAt (bytes : List UInt8) (offset : Nat) : Int :=
  IntFormat.decode ⟨4, true, .little⟩ ((bytes.drop offset).take 4)

/-- The bytes up to the last field that is read. -/
def headersSize : Nat := 50

/-- What the headers of a file say. -/
def infoIn (bytes : List UInt8) : Info where
  width := (signedAt bytes 18).natAbs
  height := (signedAt bytes 22).natAbs
  depth := fieldAt bytes 28 2
  bottomUp := 0 < signedAt bytes 22
  dataOffset := fieldAt bytes 10 4

/-! ### Colours -/

/-- The opaque colour of the blue, green and red bytes at an offset. -/
def colorAt (bytes : List UInt8) (offset : Nat) : UInt32 :=
  (Color.solid (bytes.getD (offset + 2) 0) (bytes.getD (offset + 1) 0) (bytes.getD offset 0)).pack

/-- The cell made of bytes is the colour at their offset. -/
theorem cellOf_take_drop {bytes : List UInt8} {offset width : Nat} (three : 3 ≤ width)
    (inside : offset + width ≤ bytes.length) :
    cellOf ((bytes.drop offset).take width) = colorAt bytes offset := by
  obtain ⟨more, rfl⟩ := Nat.exists_eq_add_of_le three
  have colors : ((bytes.drop offset).take (3 + more)).take 3 =
      [bytes.getD offset 0, bytes.getD (offset + 1) 0, bytes.getD (offset + 2) 0] := by
    rw [List.take_take, Nat.min_eq_left (Nat.le_add_right _ _),
      take_drop_eq_map (by omega) 0]
    rfl
  rw [← List.take_append_drop 3 ((bytes.drop offset).take (3 + more)), colors]
  rfl

/-! ### The palette -/

/-- Where the palette starts, behind both headers. -/
def paletteStart (bytes : List UInt8) : Nat := fileHeaderSize + fieldAt bytes 14 4

def paletteCount (bytes : List UInt8) : Nat := paletteSize (fieldAt bytes 46 4)

theorem paletteSize_pos (colorsUsed : Nat) : 0 < paletteSize colorsUsed := by
  unfold paletteSize largestPalette
  split
  · decide
  · omega

/-- The first colours of those that stand from an offset on. -/
def colorsFrom (bytes : List UInt8) (start count : Nat) : List UInt32 :=
  (List.range count).map fun k => colorAt bytes (start + 4 * k)

def paletteIn (bytes : List UInt8) : List UInt32 :=
  colorsFrom bytes (paletteStart bytes) (paletteCount bytes)

theorem colorsFrom_succ (bytes : List UInt8) (start count : Nat) :
    colorsFrom bytes start (count + 1) =
      colorAt bytes start :: colorsFrom bytes (start + 4) count := by
  have shift (k : Nat) : start + 4 * (k + 1) = start + 4 + 4 * k := by omega
  rw [colorsFrom, List.range_succ_eq_map, List.map_cons, List.map_map]
  simp only [Function.comp_def, shift]
  rfl

theorem length_colorsFrom (bytes : List UInt8) (start count : Nat) :
    (colorsFrom bytes start count).length = count := by
  rw [colorsFrom, List.length_map, List.length_range]

theorem getD_colorsFrom {bytes : List UInt8} {start count k : Nat} (inside : k < count) :
    (colorsFrom bytes start count).getD k 0 = colorAt bytes (start + 4 * k) := by
  rw [List.getD_eq_getElem?_getD, colorsFrom, List.getElem?_map, List.getElem?_range inside]
  rfl

theorem reaches_readColors (reached : Stream → Contents → Prop) {r : Decoder}
    (sound : r.stream.Sound) (count : Nat) :
    Reaches (fun _ t => reached t.stream t.found) (readColors count) r ↔
      4 * count ≤ r.stream.ahead.length ∧
        reached (r.stream.seek (r.stream.position + 4 * count)) ⟨r.found.options, r.found.info,
          r.found.palette ++ colorsFrom r.stream.visible r.stream.position count⟩ := by
  induction count generalizing r with
  | zero =>
    have none : r.found.palette ++ colorsFrom r.stream.visible r.stream.position 0 =
        r.found.palette := List.append_nil _
    rw [none]
    constructor
    · rintro ⟨_, _, ⟨⟩, held⟩
      exact ⟨Nat.zero_le _, held⟩
    · rintro ⟨-, held⟩
      exact ⟨(), r, rfl, held⟩
  | succ count ih =>
    rw [readColors, reaches_take (Stream.takes_readExact 4) sound, reaches_bind,
      reaches_modifyFound]
    by_cases four : 4 ≤ r.stream.ahead.length
    · have room : r.stream.ahead.length = r.stream.visible.length - r.stream.position := by
        rw [Stream.ahead, List.length_drop]
      have color : cellOf (id (r.stream.ahead.take 4)) =
          colorAt r.stream.visible r.stream.position := cellOf_take_drop (by decide) (by omega)
      have later := ih (r := ⟨(r.past 4).stream, ⟨r.found.options, r.found.info,
        r.found.palette ++ [colorAt r.stream.visible r.stream.position]⟩, r.notes⟩)
        (sound_past sound 4)
      have enough : 4 * count ≤ (r.past 4).stream.ahead.length ↔
          4 * (count + 1) ≤ r.stream.ahead.length := by
        rw [ahead_past, List.length_drop]
        omega
      have place : r.stream.position + 4 + 4 * count = r.stream.position + 4 * (count + 1) := by
        omega
      dsimp only at later ⊢
      rw [enough, List.append_assoc, position_past, place] at later
      rw [color, colorsFrom_succ, and_iff_right four]
      exact later
    · constructor
      · exact fun reads => absurd reads.1 four
      · intro reads
        exact absurd reads.1 (by omega)

theorem reaches_readPalette (reached : Stream → Contents → Prop) {r : Decoder}
    (sound : r.stream.Sound) (infoSize colorsUsed : Nat) :
    let start := fileHeaderSize + infoSize
    let count := paletteSize colorsUsed
    Reaches (fun _ t => reached t.stream t.found) (readPalette infoSize colorsUsed) r ↔
      start + 4 * count ≤ r.stream.visible.length ∧
        reached (r.stream.seek (start + 4 * count))
          ⟨r.found.options, r.found.info, colorsFrom r.stream.visible start count⟩ := by
  intro start count
  have positive : 0 < count := paletteSize_pos colorsUsed
  have colors (notes : List Note) := reaches_readColors reached
    (r := ⟨r.stream.seek start, ⟨r.found.options, r.found.info, []⟩, notes⟩) (sound.seek start)
    count
  have enough : 4 * count ≤ (r.stream.seek start).ahead.length ↔
      start + 4 * count ≤ r.stream.visible.length := by
    rw [Stream.ahead_seek, List.length_drop]
    omega
  simp only [enough, List.nil_append] at colors
  unfold readPalette
  rw [reaches_ite]
  split
  · exact colors _
  · exact colors _

/-! ### All of the headers -/

/--
The bytes start with headers that can be read, and hold the palette if the image has one.
-/
structure HeadersReadable (options : DecoderOptions) (bytes : List UInt8) : Prop where
  named : bytes.take magic.length = magic
  long : headersSize ≤ bytes.length
  size : fieldAt bytes 14 4 ∈ headerSizes
  width : 0 < signedAt bytes 18
  height : signedAt bytes 22 ≠ 0
  within : options.refuses (infoIn bytes).width (infoIn bytes).height = false
  planes : fieldAt bytes 26 2 = 1
  depth : fieldAt bytes 28 2 ∈ depths
  compression : fieldAt bytes 30 4 = 0
  palette : fieldAt bytes 28 2 = 8 → paletteStart bytes + 4 * paletteCount bytes ≤ bytes.length

/-- The bytes start with the fields of headers that can be read. -/
structure FieldsReadable (options : DecoderOptions) (bytes : List UInt8) : Prop where
  named : bytes.take magic.length = magic
  long : headersSize ≤ bytes.length
  size : fieldAt bytes 14 4 ∈ headerSizes
  width : 0 < signedAt bytes 18
  height : signedAt bytes 22 ≠ 0
  within : options.refuses (infoIn bytes).width (infoIn bytes).height = false
  planes : fieldAt bytes 26 2 = 1
  depth : fieldAt bytes 28 2 ∈ depths
  compression : fieldAt bytes 30 4 = 0

/-- The fields can be read at the front of `head`, and the palette is where they say in `all`. -/
structure HeadersPlaced (options : DecoderOptions) (head all : List UInt8) : Prop where
  fields : FieldsReadable options head
  palette : fieldAt head 28 2 = 8 → paletteStart head + 4 * paletteCount head ≤ all.length

theorem headersPlaced_self_iff {options : DecoderOptions} {bytes : List UInt8} :
    HeadersPlaced options bytes bytes ↔ HeadersReadable options bytes := by
  constructor
  · rintro ⟨⟨named, long, size, width, height, within, planes, depth, compression⟩, palette⟩
    exact ⟨named, long, size, width, height, within, planes, depth, compression, palette⟩
  · rintro ⟨named, long, size, width, height, within, planes, depth, compression, palette⟩
    exact ⟨⟨named, long, size, width, height, within, planes, depth, compression⟩, palette⟩

/-- Where the headers and the palette end. -/
def headersEnd (bytes : List UInt8) : Nat :=
  if fieldAt bytes 28 2 = 8 then paletteStart bytes + 4 * paletteCount bytes else headersSize

theorem reaches_readField {β : Type} {reached : β → Decoder → Prop} {width : Nat}
    (positive : 0 < width) {next : Nat → DecoderM β} {r : Decoder} (sound : r.stream.Sound)
    (offset : Nat) :
    Reaches reached (readField width >>= next) (r.past offset) ↔
      offset + width ≤ r.stream.ahead.length ∧
        Reaches reached (next (fieldAt r.stream.ahead offset width)) (r.past (offset + width)) :=
  reaches_readNat positive sound offset

theorem reaches_readSigned {β : Type} {reached : β → Decoder → Prop} {next : Int → DecoderM β}
    {r : Decoder} (sound : r.stream.Sound) (offset : Nat) :
    Reaches reached (readSigned >>= next) (r.past offset) ↔
      offset + 4 ≤ r.stream.ahead.length ∧
        Reaches reached (next (signedAt r.stream.ahead offset)) (r.past (offset + 4)) :=
  reaches_takeAt (Stream.takes_readInt ⟨4, true, .little⟩) (by decide) sound offset

/-- Fields behind bytes that are skipped. -/
theorem reaches_skip_readField {β : Type} {reached : β → Decoder → Prop} {width : Nat}
    (positive : 0 < width) {next : Nat → DecoderM β} {r : Decoder} (sound : r.stream.Sound)
    (offset count : Nat) :
    Reaches reached (Reading.onStream (Stream.skip count) >>= fun _ => readField width >>= next)
        (r.past offset) ↔
      offset + count + width ≤ r.stream.ahead.length ∧
        Reaches reached (next (fieldAt r.stream.ahead (offset + count) width))
          (r.past (offset + count + width)) :=
  reaches_skip_take (Stream.takes_readNat .little width) positive sound offset count

/-- What is found, once the fields were read. -/
theorem reaches_found (reached : Stream → Contents → Prop) {r : Decoder}
    (sound : r.stream.Sound) (infoSize colorsUsed : Nat) (info : Info) :
    let stop := fileHeaderSize + infoSize + 4 * paletteSize colorsUsed
    Reaches (fun _ t => reached t.stream t.found)
        (if info.depth = 8 then
          readPalette infoSize colorsUsed >>= fun _ =>
            Reading.modifyFound fun c => { c with info := some info }
        else Reading.modifyFound fun c => { c with info := some info }) r ↔
      (info.depth = 8 → stop ≤ r.stream.visible.length) ∧
        reached (if info.depth = 8 then r.stream.seek stop else r.stream)
          ⟨r.found.options, some info, if info.depth = 8 then
            colorsFrom r.stream.visible (fileHeaderSize + infoSize) (paletteSize colorsUsed)
            else r.found.palette⟩ := by
  intro stop
  by_cases indexed : info.depth = 8
  · simp only [indexed, if_true, forall_const, reaches_bind, reaches_modifyFound]
    exact reaches_readPalette (fun stream found =>
      reached stream ⟨found.options, some info, found.palette⟩) sound infoSize colorsUsed
  · simp only [indexed, if_false, reaches_modifyFound, false_implies, true_and]

/-- Where a reader stops that finds headers from `position` on. -/
def headersStop (position : Nat) (head : List UInt8) : Nat :=
  if fieldAt head 28 2 = 8 then paletteStart head + 4 * paletteCount head
  else position + headersSize

theorem reaches_decodeHeaders_of_ahead (reached : Stream → Contents → Prop) {r : Decoder}
    (sound : r.stream.Sound) (fresh : r.found.info = none) {head : List UInt8}
    (ahead : r.stream.ahead = head) :
    Reaches (fun _ t => reached t.stream t.found) decodeHeaders r ↔
      HeadersPlaced r.found.options head r.stream.visible ∧
        reached (r.stream.seek (headersStop r.stream.position head)) ⟨r.found.options,
          some (infoIn head), if fieldAt head 28 2 = 8 then
            colorsFrom r.stream.visible (paletteStart head) (paletteCount head)
            else r.found.palette⟩ := by
  have unread : ¬r.found.info.isSome = true := by simp [fresh]
  have four : 0 < 4 := by decide
  have two : 0 < 2 := by decide
  have two' : magic.length = 2 := rfl
  unfold decodeHeaders
  rw [reaches_soFar, if_neg unread, reaches_take (Stream.takes_readExact magic.length) sound,
    reaches_check, reaches_skip_readField four sound,
    reaches_readField four sound, reaches_check, reaches_readSigned sound,
    reaches_readSigned sound, reaches_check, reaches_soFar, reaches_check,
    reaches_readField two sound, reaches_check, reaches_readField two sound, reaches_check,
    reaches_readField four sound, reaches_check]
  simp only [two', Nat.reduceAdd, found_past]
  rw [reaches_skip_readField four sound]
  simp only [Nat.reduceAdd, ahead, reaches_note]
  have found (notes : List Note) := reaches_found reached
    (r := ⟨r.stream.seek (r.stream.position + 50), r.found, notes⟩) (sound.seek _)
    (fieldAt head 14 4) (fieldAt head 46 4) (infoIn head)
  have place : (if (infoIn head).depth = 8 then
      (r.stream.seek (paletteStart head + 4 * paletteCount head))
      else r.stream.seek (r.stream.position + 50)) =
        r.stream.seek (headersStop r.stream.position head) := by
    rw [headersStop, apply_ite r.stream.seek]
    rfl
  constructor
  · rintro ⟨-, named, -, -, size, -, -, sides, within, -, planes, -, depth, -, compression, long,
      rest⟩
    obtain ⟨palette, held⟩ := (found _).mp rest
    rw [← place]
    refine ⟨⟨⟨Decidable.not_not.mp named, long, by simpa using size, by omega, by omega,
      Bool.not_eq_true _ ▸ within, by omega, by simpa using depth, by omega⟩, palette⟩, held⟩
  · rintro ⟨⟨⟨named, long, size, width, height, within, planes, depth, compression⟩, palette⟩, held⟩
    unfold headersSize at long
    rw [← place] at held
    refine ⟨by omega, Decidable.not_not.mpr named, by omega, by omega, by simpa using size,
      by omega, by omega, by omega, Bool.not_eq_true _ ▸ within, by omega, by omega, by omega,
      by simpa using depth, by omega, by omega, long, ?_⟩
    exact (found _).mpr ⟨palette, held⟩

theorem reaches_decodeHeaders (reached : Stream → Contents → Prop) {r : Decoder}
    (sound : r.stream.Sound) (fresh : r.found.info = none) (atStart : r.stream.position = 0) :
    Reaches (fun _ t => reached t.stream t.found) decodeHeaders r ↔
      HeadersReadable r.found.options r.stream.visible ∧
        reached (r.stream.seek (headersEnd r.stream.visible)) ⟨r.found.options,
          some (infoIn r.stream.visible), if fieldAt r.stream.visible 28 2 = 8 then
            paletteIn r.stream.visible else r.found.palette⟩ := by
  have all : r.stream.ahead = r.stream.visible := by
    rw [Stream.ahead, atStart, List.drop_zero]
  have stop : headersStop 0 r.stream.visible = headersEnd r.stream.visible := by
    rw [headersStop, headersEnd, Nat.zero_add]
  have headers := reaches_decodeHeaders_of_ahead reached sound fresh all
  rw [atStart, stop, headersPlaced_self_iff] at headers
  exact headers

/-! ### Marks -/

/-- The bytes start as those of a BMP do. -/
structure Marked (bytes : List UInt8) : Prop where
  named : bytes.take magic.length = magic
  long : fileHeaderSize + 4 ≤ bytes.length
  size : ByteOrder.little.readAt bytes fileHeaderSize 4 ∈ headerSizes

theorem HeadersReadable.marked {options : DecoderOptions} {bytes : List UInt8}
    (readable : HeadersReadable options bytes) : Marked bytes :=
  ⟨readable.named, Nat.le_trans (by decide) readable.long, readable.size⟩

theorem marked_of_decodeHeaders {r t : Decoder} (sound : r.stream.Sound)
    (fresh : r.found.info = none) (atStart : r.stream.position = 0)
    (read : decodeHeaders r = .ok () t) : Marked r.stream.ahead := by
  have reached := (reaches_decodeHeaders (fun _ _ => True) sound fresh atStart).mp
    ⟨(), t, read, trivial⟩
  rw [Stream.ahead, atStart, List.drop_zero]
  exact reached.1.marked

end PackageAssets.Bmp
