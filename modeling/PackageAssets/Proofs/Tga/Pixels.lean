import PackageAssets.Proofs.Image.Exchange
import PackageAssets.Proofs.Tga.Headers
import PackageAssets.Proofs.Tga.InStep

/-!
# The pixels of a TGA

From the start of a window a file is an image exactly when its header can be read
and its pixels are there, behind the header, the identification and the colour
map. Each pixel is then given by a place in the bytes, computed from the fields of
the header; the rows are found from the top or from the bottom.
-/
namespace PackageAssets.Tga

open Reading

/-! ### What the bytes say -/

/-- Where the pixels start. -/
def pixelStart (bytes : List UInt8) : Nat :=
  headerSize + fieldAt bytes 0 1 +
    if fieldAt bytes 1 1 = 1 then fieldAt bytes 5 2 * ((fieldAt bytes 7 1 + 7) / 8) else 0

/-- The bytes that a pixel takes. -/
def pixelBytes (bytes : List UInt8) : Nat := fieldAt bytes 16 1 / 8

/-- The bytes start with a header that can be read, and hold the pixels it announces. -/
structure Complete (options : DecoderOptions) (bytes : List UInt8) : Prop extends
    Readable options bytes where
  pixels : pixelStart bytes + fieldAt bytes 12 2 * fieldAt bytes 14 2 * pixelBytes bytes ≤
    bytes.length

/-- The stored row that is row `y` of the image: the first one is at the top if a bit says so. -/
def storedRow (bytes : List UInt8) (y : Nat) : Nat :=
  if (fieldAt bytes 17 1).testBit 5 then y else fieldAt bytes 14 2 - 1 - y

/-- The colour in the blue, green, red and perhaps alpha bytes at an offset. -/
def colorAt (bytes : List UInt8) (size offset : Nat) : UInt32 :=
  (Color.mk (bytes.getD (offset + 2) 0) (bytes.getD (offset + 1) 0) (bytes.getD offset 0)
    (if size = 4 then bytes.getD (offset + 3) 0 else 255)).pack

/-- The colour of a pixel, counted from the top left of the image. -/
def pixelIn (bytes : List UInt8) (x y : Nat) : UInt32 :=
  colorAt bytes (pixelBytes bytes)
    (pixelStart bytes + (storedRow bytes y * fieldAt bytes 12 2 + x) * pixelBytes bytes)

/-! ### Cells -/

/-- The cell made of bytes is the colour at their offset. -/
theorem cellOf_take_drop {bytes : List UInt8} {size offset : Nat} (known : size = 3 ∨ size = 4)
    (inside : offset + size ≤ bytes.length) :
    cellOf ((bytes.drop offset).take size) = colorAt bytes size offset := by
  rw [take_drop_eq_map inside 0]
  rcases known with rfl | rfl
  · rfl
  · rfl

/-- A cell of an image stands where its pixel does. -/
theorem getElem?_cells {bytes : List UInt8} {size count start : Nat} (known : size = 3 ∨ size = 4)
    (inside : start + count * size ≤ bytes.length) {i : Nat} (low : i < count) :
    ((blocks size count ((bytes.drop start).take (count * size))).map cellOf)[i]? =
      some (colorAt bytes size (start + i * size)) := by
  have within : (i + 1) * size ≤ count * size := Nat.mul_le_mul_right size low
  rw [Nat.succ_mul] at within
  rw [blocks_eq_map, List.map_map, List.getElem?_map, List.getElem?_range low, Option.map_some,
    Function.comp_apply, List.drop_take, List.take_take, Nat.min_eq_left (by omega),
    List.drop_drop, cellOf_take_drop known (by omega)]

/-! ### Images -/

/-- The bytes of the pixels. -/
def pixelsFrom (info : Info) (bytes : List UInt8) : List UInt8 :=
  (bytes.drop info.pixelOffset).take (info.width * info.height * pixelSize info)

/-- The image in a file, turned if it is stored bottom up. -/
def imageFrom? (info : Info) (bytes : List UInt8) : Option Image :=
  (imageIn info (pixelsFrom info bytes)).map fun image =>
    if info.bottomUp then image.flipY else image

theorem length_pixelsFrom {info : Info} {bytes : List UInt8}
    (there : info.pixelOffset + info.width * info.height * pixelSize info ≤ bytes.length) :
    (pixelsFrom info bytes).length = info.width * info.height * pixelSize info := by
  rw [pixelsFrom, List.length_take, List.length_drop]
  omega

/-- An image is read just if all its pixels are there. -/
theorem reaches_readImage (reached : Image → Prop) {r : Decoder} (sound : r.stream.Sound)
    {info : Info} (sensible : info.Sensible) :
    Reaches (fun image _ => reached image) (readImage info) r ↔
      info.pixelOffset + info.width * info.height * pixelSize info ≤ r.stream.visible.length ∧
        ∃ image, imageFrom? info r.stream.visible = some image ∧ reached image := by
  have positive : 0 < info.width * info.height * pixelSize info :=
    Nat.mul_pos (Nat.mul_pos sensible.width sensible.height) sensible.pixelSize_pos
  have room : info.width * info.height * pixelSize info ≤
      (r.stream.seek info.pixelOffset).ahead.length ↔
        info.pixelOffset + info.width * info.height * pixelSize info ≤
          r.stream.visible.length := by
    rw [Stream.ahead_seek, List.length_drop]
    omega
  unfold readImage
  rw [reaches_setPosition]
  refine (reaches_readStream positive (sound.seek info.pixelOffset)).trans ?_
  rw [room]
  refine and_congr_right fun there => ?_
  have inside : info.pixelOffset + info.width * info.height * pixelSize info ≤ r.stream.length :=
    Stream.length_visible sound ▸ there
  have viewed := Stream.sound_part (sound.seek info.pixelOffset) (Nat.le_add_right _ _) inside
  have ahead := Stream.ahead_part (s := r.stream.seek info.pixelOffset) info.pixelOffset inside
  rw [Nat.add_sub_cancel_left] at ahead
  obtain ⟨image, made⟩ := exists_image sensible (length_pixelsFrom there)
  have whole : imageIn info
      (((r.stream.seek info.pixelOffset).visible.drop info.pixelOffset).take
        (info.width * info.height * pixelSize info)) = some image := made
  rw [Stream.seek_position, Stream.readRemaining_eq viewed, ahead, imageFrom?, made]
  dsimp only
  rw [whole]
  constructor
  · rintro ⟨_, _, ⟨⟩, held⟩
    exact ⟨_, rfl, held⟩
  · rintro ⟨_, ⟨⟩, held⟩
    exact ⟨_, _, rfl, held⟩

/-! ### The file -/

theorem Readable.sensible {options : DecoderOptions} {bytes : List UInt8}
    (readable : Readable options bytes) (position : Nat) :
    (infoAt position bytes).Sensible :=
  ⟨readable.width, readable.height, readable.depth⟩

theorem pixelOffset_infoAt (bytes : List UInt8) :
    (infoAt 0 bytes).pixelOffset = pixelStart bytes := by
  simp only [infoAt, pixelStart, colorMapBytes, Nat.zero_add]

/-- The bit says which way the image is turned. -/
theorem storedRow_eq (bytes : List UInt8) (y : Nat) :
    storedRow bytes y = if (infoAt 0 bytes).bottomUp then fieldAt bytes 14 2 - 1 - y else y := by
  have bit : (fieldAt bytes 17 1).testBit 5 = !(infoAt 0 bytes).bottomUp := by
    simp only [infoAt, Nat.testBit_eq_decide_div_mod_eq]
    grind
  rw [storedRow, bit]
  cases (infoAt 0 bytes).bottomUp with
  | false => rfl
  | true => rfl

/-- The image of a file that is complete. -/
theorem of_imageFrom? {options : DecoderOptions} {bytes : List UInt8}
    (complete : Complete options bytes) :
    ∃ image, imageFrom? (infoAt 0 bytes) bytes = some image ∧
      image.width = fieldAt bytes 12 2 ∧ image.height = fieldAt bytes 14 2 ∧
      ∀ x < image.width, ∀ y < image.height, image.get? x y = some (pixelIn bytes x y) := by
  have start := pixelOffset_infoAt bytes
  have there : (infoAt 0 bytes).pixelOffset +
      (infoAt 0 bytes).width * (infoAt 0 bytes).height * pixelSize (infoAt 0 bytes) ≤
        bytes.length := start ▸ complete.pixels
  have size : pixelBytes bytes = 3 ∨ pixelBytes bytes = 4 := by
    have depth := complete.depth
    unfold pixelBytes
    omega
  have full := length_pixelsFrom there
  obtain ⟨m, made⟩ := exists_image (complete.sensible 0) full
  have count : (pixelsFrom (infoAt 0 bytes) bytes).length / pixelSize (infoAt 0 bytes) =
      fieldAt bytes 12 2 * fieldAt bytes 14 2 := by
    rw [full, Nat.mul_div_cancel _ (complete.sensible 0).pixelSize_pos]
    rfl
  have shape := made
  rw [imageIn, count] at shape
  obtain ⟨width, height, pixels⟩ := Image.of_ofPixels? shape
  -- as it is stored, the image has its pixels in the order of the file
  have stored {x i : Nat} (left : x < m.width) (low : i < m.height) :
      m.get? x i = some (colorAt bytes (pixelBytes bytes)
        (pixelStart bytes + (i * fieldAt bytes 12 2 + x) * pixelBytes bytes)) := by
    have inside : i * m.width + x < m.height * m.width := by
      have := Nat.mul_le_mul_right m.width low
      rw [Nat.succ_mul] at this
      omega
    rw [Image.get?, if_pos ⟨left, low⟩, pixels, width]
    rw [width, height, Nat.mul_comm (infoAt 0 bytes).height] at inside
    rw [← start]
    exact getElem?_cells size (start ▸ complete.pixels) inside
  have tall : m.height = fieldAt bytes 14 2 := height
  rw [imageFrom?, made, Option.map_some]
  simp only [pixelIn, storedRow_eq]
  cases (infoAt 0 bytes).bottomUp with
  | false => exact ⟨m, rfl, width, height, fun x left y low => stored left low⟩
  | true =>
    refine ⟨m.flipY, rfl, width, height, fun x left y low => ?_⟩
    have low : y < m.height := low
    rw [if_pos rfl, Image.get?_flipY m x low, ← tall]
    exact stored left (by omega)

section File

variable {s : Stream} (sound : s.Sound) {options : DecoderOptions}

include sound

/-- What is left to do behind the header of a file. -/
theorem reaches_readFound {reached : Image → Prop} {t : Decoder} {position : Nat}
    (readable : Readable options s.visible) (stream : t.stream = s.seek position)
    (found : t.found.info = some (infoAt 0 s.visible)) :
    Reaches (fun image _ => reached image) readFound t ↔
      Complete options s.visible ∧
        ∃ image, imageFrom? (infoAt 0 s.visible) s.visible = some image ∧ reached image := by
  have image := reaches_readImage (r := t) reached (stream ▸ sound.seek position)
    (readable.sensible 0)
  have same : t.stream.visible = s.visible := by
    rw [stream]
    rfl
  rw [same, pixelOffset_infoAt] at image
  rw [Reaches, readFound_eq found]
  refine image.trans (and_congr_left fun _ => ?_)
  exact ⟨fun pixels => ⟨readable, pixels⟩, fun complete => complete.pixels⟩

/-- A file is read just if its header can be and its pixels are there. -/
theorem reaches_decode (atStart : s.position = 0) (reached : Image → Prop) :
    Reaches (fun image _ => reached image) decode (Decoder.start s options) ↔
      Complete options s.visible ∧
        ∃ image, imageFrom? (infoAt 0 s.visible) s.visible = some image ∧ reached image := by
  have all : s.ahead = s.visible := by
    rw [Stream.ahead, atStart, List.drop_zero]
  have header (reached : Stream → Option Info → Prop) :=
    reaches_decodeHeaders (r := Decoder.start s options) reached sound rfl
  simp only [Decoder.start, Reading.start, all, atStart, Nat.zero_add] at header
  rw [decode_eq, reaches_bind]
  constructor
  · rintro ⟨_, t, read, rest⟩
    obtain ⟨readable, stream, found⟩ := (header fun stream info =>
      t.stream = stream ∧ t.found.info = info).mp ⟨(), t, read, rfl, rfl⟩
    exact (reaches_readFound sound readable stream found).mp rest
  · intro image
    obtain ⟨_, t, read, stream, found⟩ := (header fun stream info =>
      stream = s.seek headerSize ∧ info = some (infoAt 0 s.visible)).mpr
        ⟨image.1.toReadable, rfl, rfl⟩
    exact ⟨(), t, read, (reaches_readFound sound image.1.toReadable stream found).mpr image⟩

end File

/--
A TGA is read from the start of a window exactly when its bytes start with a header that can be read
and hold the pixels it announces, for any options. The image then has the size the header gives, and
its pixels are the colours at the places computed from it.
-/
theorem decode_accepts_complete {s : Stream} (sound : s.Sound) (atStart : s.position = 0)
    (options : DecoderOptions) :
    ((∃ image after, decode (Decoder.start s options) = .ok image after) ↔
      Complete options s.visible) ∧
    ∀ image after, decode (Decoder.start s options) = .ok image after →
      image.width = fieldAt s.visible 12 2 ∧ image.height = fieldAt s.visible 14 2 ∧
      ∀ x < image.width, ∀ y < image.height, image.get? x y = some (pixelIn s.visible x y) := by
  constructor
  · constructor
    · rintro ⟨image, after, done⟩
      exact ((reaches_decode sound atStart fun _ => True).mp ⟨image, after, done, trivial⟩).1
    · intro complete
      obtain ⟨image, made, -⟩ := of_imageFrom? complete
      obtain ⟨image, after, done, -⟩ :=
        (reaches_decode sound atStart fun _ => True).mpr ⟨complete, image, made, trivial⟩
      exact ⟨image, after, done⟩
  · intro image after done
    obtain ⟨complete, _, made, rfl⟩ :=
      (reaches_decode sound atStart (image = ·)).mp ⟨image, after, done, rfl⟩
    obtain ⟨_, again, shown⟩ := of_imageFrom? complete
    cases made.symm.trans again
    exact shown

/-- Two by two pixels with alpha, bottom row first, behind a name of a byte and a colour map. -/
def mappedTarga : List UInt8 :=
  [1, 1, 2] ++ [0, 0, 1, 0, 15] ++ [0, 0, 0, 0] ++ [2, 0, 2, 0, 32, 8] ++ [77] ++ [5, 6] ++
    [1, 2, 3, 4, 5, 6, 7, 8] ++ [9, 10, 11, 12, 13, 14, 15, 16]

theorem decode_accepts_complete_mappedTarga :
    let start := Decoder.start (.ofBytes mappedTarga) .usual
    (∃ image after, decode start = .ok image after) ∧
      ∀ image after, decode start = .ok image after →
        image.width = 2 ∧ image.height = 2 ∧ image.get? 0 0 = some 0x0C090A0B ∧
          image.get? 1 1 = some 0x08050607 := by
  have complete : Complete .usual (Stream.ofBytes mappedTarga).visible :=
    ⟨⟨by decide, by decide, by decide, by decide, by decide, by decide, by decide⟩, by decide⟩
  have sound : (Stream.ofBytes mappedTarga).Sound := Stream.sound_ofBytes (by decide)
  have accepts := decode_accepts_complete sound rfl .usual
  intro start
  refine ⟨accepts.1.mpr complete, fun image after read => ?_⟩
  obtain ⟨width, height, pixels⟩ := accepts.2 image after read
  have two : fieldAt (Stream.ofBytes mappedTarga).visible 12 2 = 2 := by decide
  have two' : fieldAt (Stream.ofBytes mappedTarga).visible 14 2 = 2 := by decide
  rw [two] at width
  rw [two'] at height
  refine ⟨width, height, ?_, ?_⟩
  · rw [pixels 0 (by omega) 0 (by omega)]
    decide +kernel
  · rw [pixels 1 (by omega) 1 (by omega)]
    decide +kernel

end PackageAssets.Tga
