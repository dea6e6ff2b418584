import PackageAssets.Proofs.Format.Settled
import PackageAssets.Proofs.Image.Words
import PackageAssets.Proofs.Tga.Pixels

/-!
# The sizes of a TGA

The sides of an image are numbers of 16 bits, so that nothing that is computed of
them comes near the end of a word. Where the pixels start depends on where the
header stands as well: that is inside a source, and no source has half as many
bytes as a count can be.
-/
namespace PackageAssets.Tga

open Reading

/-- The bytes of the colour map, as they are computed in words. -/
def colorMapWord (mapType length entryBits : Nat) : UInt64 :=
  if mapType = 1 then .ofNat length * ((.ofNat entryBits + 7) / 8) else 0

/-- Where the pixels start behind a header at `position`, as it is computed in words. -/
def pixelOffsetWord (position : Nat) (bytes : List UInt8) : UInt64 :=
  .ofNat (position + headerSize) + .ofNat (fieldAt bytes 0 1) +
    colorMapWord (fieldAt bytes 1 1) (fieldAt bytes 5 2) (fieldAt bytes 7 1)

/-- The bytes of all pixels, as they are computed in words. -/
def neededWord (info : Info) : UInt64 :=
  .ofNat info.width * .ofNat info.height * (.ofNat info.pixelDepth / 8)

/-- The sizes that are computed of an image whose header stands at `position`, in words. -/
structure SizesHeld (position : Nat) (bytes : List UInt8) : Prop where
  offset : Holds (pixelOffsetWord position bytes) (infoAt position bytes).pixelOffset
  cells : RectangleHeld (infoAt position bytes).width (infoAt position bytes).height
  needed : Holds (neededWord (infoAt position bytes))
    ((infoAt position bytes).width * (infoAt position bytes).height *
      pixelSize (infoAt position bytes))
  stop : Holds (pixelOffsetWord position bytes + neededWord (infoAt position bytes))
    ((infoAt position bytes).pixelOffset + (infoAt position bytes).width *
      (infoAt position bytes).height * pixelSize (infoAt position bytes))

theorem holds_colorMapWord (mapType : Nat) {length entryBits : Nat} (few : length < 256 ^ 2)
    (small : entryBits < 256 ^ 1) :
    Holds (colorMapWord mapType length entryBits) (colorMapBytes mapType length entryBits) ∧
      colorMapBytes mapType length entryBits < 2 ^ 32 := by
  have size : length * ((entryBits + 7) / 8) ≤ 256 ^ 2 * 32 :=
    Nat.mul_le_mul (Nat.le_of_lt few) (by omega)
  unfold colorMapWord colorMapBytes
  split
  · have entry := ((Holds.ofNat (n := entryBits) (by omega)).add
      (show Holds 7 7 from rfl) (by omega)).div (show Holds 8 8 from rfl)
    exact ⟨(Holds.ofNat (by omega)).mul entry (by omega), by omega⟩
  · exact ⟨rfl, by decide⟩

theorem sizesHeld {options : DecoderOptions} {position : Nat} {bytes : List UInt8}
    (readable : Readable options bytes) (held : position + headerSize < 2 ^ 63) :
    SizesHeld position bytes := by
  have wide : fieldAt bytes 12 2 < 256 ^ 2 := ByteOrder.readAt_lt ..
  have tall : fieldAt bytes 14 2 < 256 ^ 2 := ByteOrder.readAt_lt ..
  have named : fieldAt bytes 0 1 < 256 ^ 1 := ByteOrder.readAt_lt ..
  have entries : fieldAt bytes 5 2 < 256 ^ 2 := ByteOrder.readAt_lt ..
  have deep : fieldAt bytes 7 1 < 256 ^ 1 := ByteOrder.readAt_lt ..
  have depth := readable.depth
  have cells : fieldAt bytes 12 2 * fieldAt bytes 14 2 ≤ 256 ^ 2 * 256 ^ 2 :=
    Nat.mul_le_mul (Nat.le_of_lt wide) (Nat.le_of_lt tall)
  have size : fieldAt bytes 12 2 * fieldAt bytes 14 2 * (fieldAt bytes 16 1 / 8) ≤
      256 ^ 2 * 256 ^ 2 * 4 :=
    Nat.mul_le_mul cells (by omega)
  obtain ⟨map, few⟩ := holds_colorMapWord (fieldAt bytes 1 1) entries deep
  have rectangle : RectangleHeld (fieldAt bytes 12 2) (fieldAt bytes 14 2) := by
    apply rectangleHeld <;> omega
  have start := (Holds.ofNat (n := position + headerSize) (by omega)).add
    (Holds.ofNat (n := fieldAt bytes 0 1) (by omega)) (by omega)
  have offset : Holds (pixelOffsetWord position bytes) (infoAt position bytes).pixelOffset :=
    start.add map (by omega)
  have pixel := (Holds.ofNat (n := fieldAt bytes 16 1) (by omega)).div (show Holds 8 8 from rfl)
  have needed : Holds (neededWord (infoAt position bytes)) _ :=
    rectangle.size.mul pixel (Nat.lt_of_le_of_lt size (by decide))
  exact ⟨offset, rectangle, needed, offset.add needed (by dsimp only [infoAt, pixelSize]; omega)⟩

/-! ### Headers -/

/-- A field that was read is the one at its offset in what follows in the source. -/
theorem of_readField {β : Type} {reached : β → Decoder → Prop} {width : Nat}
    (positive : 0 < width) {next : Nat → DecoderM β} {r : Decoder} {offset : Nat}
    (done : Reaches reached (readField width >>= next) (r.past offset)) :
    offset + width ≤ r.stream.following.length ∧
      Reaches reached (next (fieldAt r.stream.following offset width))
        (r.past (offset + width)) := by
  obtain ⟨n, t, read, rest⟩ := done.of_onStream
  obtain ⟨rfl, there, rfl⟩ := Stream.readNat_following positive read
  have further : (r.past offset).stream.following = r.stream.following.drop offset :=
    Stream.following_seek_add ..
  rw [further] at there rest
  rw [List.length_drop] at there
  refine ⟨by omega, ?_⟩
  rw [← past_past]
  exact rest

/-- A header that was read is one that can be, and says what stands in the source. -/
theorem of_decodeHeaders {r t : Decoder} (unread : r.found.info = none)
    (read : decodeHeaders r = .ok () t) :
    Readable r.found.options r.stream.following ∧
      t.found.info = some (infoAt r.stream.position r.stream.following) := by
  have reached : Reaches (fun _ u => u = t) decodeHeaders (r.past 0) := ⟨(), t, read, rfl⟩
  have one : 0 < 1 := Nat.one_pos
  have two : 0 < 2 := Nat.two_pos
  unfold decodeHeaders at reached
  rw [reaches_soFar, if_neg (by simp [unread])] at reached
  obtain ⟨-, reached⟩ := of_readField one reached
  obtain ⟨-, reached⟩ := of_readField one reached
  obtain ⟨-, reached⟩ := of_readField one reached
  rw [reaches_check, reaches_check] at reached
  obtain ⟨imageType, mapType, reached⟩ := reached
  obtain ⟨-, reached⟩ := of_readField two reached
  obtain ⟨-, reached⟩ := of_readField two reached
  obtain ⟨-, reached⟩ := of_readField one reached
  obtain ⟨-, reached⟩ := of_readField two reached
  obtain ⟨-, reached⟩ := of_readField two reached
  obtain ⟨-, reached⟩ := of_readField two reached
  obtain ⟨-, reached⟩ := of_readField two reached
  obtain ⟨-, reached⟩ := of_readField one reached
  obtain ⟨long, reached⟩ := of_readField one reached
  rw [reaches_check, reaches_check, reaches_soFar, reaches_check] at reached
  obtain ⟨depth, filled, within, reached⟩ := reached
  simp only [reaches_ite, reaches_get, reaches_note, reaches_modifyFound, found_past,
    position_past, Bool.not_eq_true, Nat.reduceAdd] at reached within imageType mapType depth filled
  have known : t.found.info = some (infoAt r.stream.position r.stream.following) := by
    split at reached
    · exact reached ▸ rfl
    · exact reached ▸ rfl
  exact ⟨⟨long, by omega, by omega, by omega, by omega, within, by omega⟩, known⟩

/-! ### Images -/

section Image

variable {r : Decoder} {info : Info}

/-- Too few bytes are refused before anything is read of them. -/
theorem readImage_short
    (few : r.stream.length - info.pixelOffset < info.width * info.height * pixelSize info) :
    readImage info r = .error (.io (.notEnough (info.width * info.height * pixelSize info)
      (r.stream.length - info.pixelOffset)))
        { r with stream := r.stream.seek info.pixelOffset } := by
  have short := Stream.readStream_short (s := r.stream.seek info.pixelOffset) few
  rw [readImage, bind_of_ok (setPosition_eq_ok _ r)]
  exact bind_of_error (onStream_of_error short)

/-- An image whose bytes are there is read. -/
theorem readImage_enough (sound : r.stream.Sound) (sensible : info.Sensible)
    (enough : info.width * info.height * pixelSize info ≤ r.stream.length - info.pixelOffset) :
    ∃ image u, readImage info r = .ok image u ∧ image.width = info.width ∧
      image.height = info.height ∧ image.pixels.length = info.width * info.height := by
  have positive : 0 < info.width * info.height * pixelSize info :=
    Nat.mul_pos (Nat.mul_pos sensible.width sensible.height) sensible.pixelSize_pos
  have there : info.pixelOffset + info.width * info.height * pixelSize info ≤
      r.stream.visible.length := by
    rw [Stream.length_visible sound]
    omega
  obtain ⟨stored, made⟩ := exists_image sensible (length_pixelsFrom there)
  obtain ⟨width, height, -⟩ := Image.of_ofPixels? made
  have found : imageFrom? info r.stream.visible =
      some (if info.bottomUp then stored.flipY else stored) := by
    rw [imageFrom?, made, Option.map_some]
  obtain ⟨image, u, read, rfl⟩ :=
    (reaches_readImage (_ = ·) sound sensible).mpr ⟨there, _, found, rfl⟩
  refine ⟨_, u, read, ?_⟩
  cases info.bottomUp with
  | false => exact ⟨width, height, by simp [Image.length_pixels, width, height]⟩
  | true => exact ⟨width, height, (Image.length_pixels _).trans (by rw [← width, ← height]; rfl)⟩

end Image

/-! ### Readers -/

/-- The reader holds the bytes that are there against the size of all pixels as it is. -/
structure Measured (s : Stream) (info : Info) (t : Decoder)
    (result : EStateM.Result Error Decoder Image) : Prop where
  short : s.length - info.pixelOffset < info.width * info.height * pixelSize info →
    result = .error (.io (.notEnough (info.width * info.height * pixelSize info)
      (s.length - info.pixelOffset))) { t with stream := s.seek info.pixelOffset }
  enough : s.Sound →
    info.width * info.height * pixelSize info ≤ s.length - info.pixelOffset →
      ∃ image u, result = .ok image u ∧ image.width = info.width ∧ image.height = info.height ∧
        image.pixels.length = info.width * info.height

/-- What a header says that stands somewhere in the stream. -/
structure Told (s : Stream) (options : DecoderOptions) (position : Nat) (c : Contents) : Prop where
  readable : Readable options (s.seek position).following
  info : c.info = some (infoAt position (s.seek position).following)

/-- An image is measured with the header that was read, whatever was asked before. -/
theorem sizes_of_decodeHeaders {s : Stream} (held : s.source.length < 2 ^ 63)
    {options : DecoderOptions} (requests : List ImageRequest) {t : Decoder}
    (read : decodeHeaders (askAll ask requests (Decoder.start s options)).2 = .ok () t) :
    ∃ position, let bytes := (s.seek position).following
      t.found.info = some (infoAt position bytes) ∧ SizesHeld position bytes ∧
        Measured s (infoAt position bytes) t
          (decode (askAll ask requests (Decoder.start s options)).2) := by
  have first : Leaves (Standing s (Unread options))
      (fun _ => Standing s fun c => ∃ position, Told s options position c) decodeHeaders := by
    intro r standing
    have ends := leaves_decodeHeaders r standing
    cases ran : decodeHeaders r with
    | error e u => exact .error (ends.of_error ran)
    | ok a u =>
      obtain ⟨readable, known⟩ := of_decodeHeaders standing.found.info ran
      obtain ⟨position, place⟩ := standing.place
      rw [standing.found.options_eq, place] at readable
      rw [place] at known
      exact .ok ⟨(ends.of_ok ran).place, position, readable, known⟩
  have start : Standing s (Unread options) (Decoder.start s options) := standing_start ⟨rfl, rfl⟩
  obtain ⟨⟨place, same⟩, position, told⟩ := known_of_headers decode_eq first
    (fun u ⟨_, told⟩ => decodeHeaders_again told.info) keeps_readFound start requests read
  have decoded : decode (askAll ask requests (Decoder.start s options)).2 =
      readImage (infoAt position (s.seek position).following) t := by
    rw [decode_eq, bind_of_ok read, readFound_eq told.info]
  have size : t.stream.length = s.length := by rw [same, Stream.length_seek]
  have near : position + headerSize < 2 ^ 63 := by
    have long := told.readable.long
    rw [Stream.following, List.length_drop, Stream.absolute, Stream.seek_position] at long
    rw [Source.length] at held
    have far : headerSize = 18 := rfl
    change headerSize ≤ s.source.content.length - _ at long
    omega
  refine ⟨position, told.info, sizesHeld told.readable near, ?_, ?_⟩
  · intro few
    rw [← size] at few ⊢
    rw [decoded, readImage_short few, same]
    rfl
  · intro sound enough
    rw [← size] at enough
    rw [decoded]
    exact readImage_enough (same ▸ sound.seek place) (told.readable.sensible position) enough

end PackageAssets.Tga
