import PackageAssets.Proofs.Bmp.Pixels
import PackageAssets.Proofs.Format.Settled
import PackageAssets.Proofs.Image.Words

/-!
# The sizes of a BMP

The sides of an image are signed numbers of 32 bits without their sign. The bytes
of all rows are then less than a count can be, if only just: the reader asks for
exactly as many before it makes room for an image.
-/
namespace PackageAssets.Bmp

open Reading

/-- The fields are numbers that the headers can hold. -/
structure Info.InFields (info : Info) : Prop where
  width : 2 * info.width < 2 ^ 32
  height : 2 * info.height ≤ 2 ^ 32
  filled : 0 < info.width ∧ 0 < info.height
  depth : info.depth ∈ depths
  dataOffset : info.dataOffset < 2 ^ 32

/-- The size of a row, as it is computed in words. -/
def strideWord (info : Info) : UInt64 :=
  (.ofNat info.width * (.ofNat info.depth / 8) + 3) &&& ~~~3

/-- The sizes that are computed of an image, in words. -/
structure SizesHeld (info : Info) : Prop where
  stride : Holds (strideWord info) (stride info)
  offset : Holds (.ofNat info.dataOffset) info.dataOffset
  rows : RectangleHeld (Bmp.stride info) info.height
  cells : RectangleHeld info.width info.height
  needed : Count.clamp (Bmp.stride info * info.height) = Bmp.stride info * info.height

section Sizes

variable {info : Info} (fits : info.InFields)

include fits

theorem Info.InFields.stride_le : stride info ≤ 2 ^ 33 - 4 := by
  have wide := fits.width
  have few : info.depth / 8 ≤ 4 := by
    have deep := fits.depth
    simp only [depths, List.mem_cons, List.not_mem_nil, or_false] at deep
    omega
  have row : info.width * (info.depth / 8) ≤ info.width * 4 := Nat.mul_le_mul_left _ few
  unfold stride
  omega

theorem Info.InFields.rows_le : stride info * info.height ≤ 2 ^ 64 - 2 ^ 33 :=
  (Nat.mul_le_mul fits.stride_le (by have := fits.height; omega : info.height ≤ 2 ^ 31))

theorem Info.InFields.sizesHeld : SizesHeld info := by
  have wide := fits.width
  have tall := fits.height
  have row := fits.stride_le
  have all := fits.rows_le
  have pixels : info.width * (info.depth / 8) ≤ stride info := width_mul_le_stride info
  have deep : 1 ≤ info.depth / 8 ∧ info.depth ≤ 32 := by
    have deep := fits.depth
    simp only [depths, List.mem_cons, List.not_mem_nil, or_false] at deep
    omega
  have narrow : info.width ≤ stride info :=
    Nat.le_trans (Nat.le_mul_of_pos_right _ deep.1) pixels
  have cells := Nat.mul_le_mul_right info.height narrow
  have offset := fits.dataOffset
  constructor
  · have size := (Holds.ofNat (n := info.depth) (by omega)).div
      (show Holds 8 8 from rfl)
    have row := (Holds.ofNat (n := info.width) (by omega)).mul size
      (by omega)
    exact (row.add (show Holds 3 3 from rfl) (by omega)).roundDown
  · exact .ofNat (by omega)
  · apply rectangleHeld <;> omega
  · apply rectangleHeld <;> omega
  · exact Count.clamp_of_le (by unfold Count.top; omega)

end Sizes

/-! ### Headers -/

/-- Headers that were read say something that they can hold. -/
theorem inFields_of_decodeHeaders {r t : Decoder} (unread : r.found.info = none)
    (read : decodeHeaders r = .ok () t) : ∃ info, t.found.info = some info ∧ info.InFields := by
  have reached : Reaches (fun _ u => u = t) decodeHeaders r := ⟨(), t, read, rfl⟩
  unfold decodeHeaders at reached
  rw [reaches_soFar, if_neg (by simp [unread])] at reached
  obtain ⟨found, _, -, reached⟩ := reached.of_onStream
  rw [reaches_check] at reached
  obtain ⟨_, _, -, reached⟩ := reached.2.of_onStream
  obtain ⟨dataOffset, _, offset, reached⟩ := reached.of_onStream
  obtain ⟨infoSize, _, -, reached⟩ := reached.of_onStream
  rw [reaches_check] at reached
  obtain ⟨signedWidth, _, wide, reached⟩ := reached.2.of_onStream
  obtain ⟨signedHeight, _, tall, reached⟩ := reached.of_onStream
  rw [reaches_check, reaches_soFar, reaches_check] at reached
  obtain ⟨filled, -, reached⟩ := reached
  obtain ⟨planes, _, -, reached⟩ := reached.of_onStream
  rw [reaches_check] at reached
  obtain ⟨depth, _, -, reached⟩ := reached.2.of_onStream
  rw [reaches_check] at reached
  obtain ⟨deep, reached⟩ := reached
  obtain ⟨compression, _, -, reached⟩ := reached.of_onStream
  rw [reaches_check] at reached
  obtain ⟨_, _, -, reached⟩ := reached.2.of_onStream
  obtain ⟨colorsUsed, _, -, reached⟩ := reached.of_onStream
  rw [reaches_note, reaches_note, reaches_note, reaches_note, reaches_ite] at reached
  have fits : Info.InFields
      ⟨signedWidth.natAbs, signedHeight.natAbs, depth, 0 < signedHeight, dataOffset⟩ := by
    have width := Stream.readInt_bounds rfl wide
    have height := Stream.readInt_bounds rfl tall
    have modulus : IntFormat.modulus ⟨4, true, .little⟩ = 2 ^ 32 := rfl
    rw [modulus] at width height
    refine ⟨?_, ?_, ?_, ?_, Stream.readNat_lt offset⟩
    · dsimp only
      omega
    · dsimp only
      omega
    · dsimp only
      omega
    · simpa using deep
  split at reached
  · rw [reaches_bind] at reached
    obtain ⟨_, u, -, reached⟩ := reached
    rw [reaches_modifyFound] at reached
    exact ⟨_, reached ▸ rfl, fits⟩
  · rw [reaches_modifyFound] at reached
    exact ⟨_, reached ▸ rfl, fits⟩

/-! ### Images -/

/-- The failure of an image that uses an index without a colour. -/
def unindexed : Error := .invalid "Palette index out of range"

/-- Rows that are there are read, or one of them uses an index without a colour. -/
theorem readRows_cases {r : Decoder} (sound : r.stream.Sound) (info : Info) (count : Nat)
    (done : List (List UInt32)) (enough : stride info * count ≤ r.stream.ahead.length) :
    (∃ rows u, readRows info count done r = .ok rows u) ∨
      ∃ u, readRows info count done r = .error unindexed u := by
  induction count generalizing r done with
  | zero => exact .inl ⟨done, r, rfl⟩
  | succ count ih =>
    rw [Nat.mul_succ] at enough
    have read : Stream.readExact (stride info) r.stream =
        .ok (r.stream.ahead.take (stride info)) (r.past (stride info)).stream :=
      (Stream.takes_readExact (stride info)).enough sound (by omega)
    have first := onStream_of_ok (ε := Error) (r := r) read
    rw [readRows, bind_of_ok first, bind_of_ok (soFar_eq_ok _)]
    have full : (r.stream.ahead.take (stride info)).length = stride info :=
      List.length_take_of_le (by omega)
    rcases rowCells_cases info r.found.palette full with ⟨cells, made, -⟩ | refused
    · have rest := ih (r := r.past (stride info)) (sound_past sound _) (cells :: done)
        (by rw [ahead_past, List.length_drop]; omega)
      rw [made]
      exact rest
    · rw [refused]
      exact .inr ⟨_, rfl⟩

section Image

variable {r : Decoder} {info : Info}

/-- Too few bytes are refused before anything is read of them. -/
theorem readImage_short (held : SizesHeld info)
    (few : r.stream.length - info.dataOffset < stride info * info.height) :
    readImage info r = .error (.io (.notEnough (stride info * info.height)
      (r.stream.length - info.dataOffset))) { r with stream := r.stream.seek info.dataOffset } := by
  have short : (r.stream.seek info.dataOffset).remaining < stride info * info.height := few
  rw [readImage, bind_of_ok (setPosition_eq_ok _ r), held.needed, bind_of_ok (get_eq_ok _),
    if_pos short]
  rfl

/-- An image whose bytes are there is read, or it uses an index without a colour. -/
theorem readImage_enough (sound : r.stream.Sound) (fits : info.InFields)
    (enough : stride info * info.height ≤ r.stream.length - info.dataOffset) :
    (∃ image u, readImage info r = .ok image u ∧ image.width = info.width ∧
      image.height = info.height ∧ image.pixels.length = info.width * info.height) ∨
    ∃ u, readImage info r = .error unindexed u := by
  have positive : 0 < stride info * info.height := by
    refine Nat.mul_pos ?_ fits.filled.2
    have deep := fits.depth
    have wide := fits.filled.1
    simp only [depths, List.mem_cons, List.not_mem_nil, or_false] at deep
    exact Nat.lt_of_lt_of_le (Nat.mul_pos wide (by omega)) (width_mul_le_stride info)
  have all : info.dataOffset + stride info * info.height ≤ r.stream.visible.length := by
    rw [Stream.length_visible sound]
    omega
  have reads (reached : Image → Prop) := reaches_readImage reached sound positive
  by_cases indexed : ∀ row ∈ rowsFrom info r.stream.visible, Indexed info r.found.palette row
  · obtain ⟨image, made, width, height, -⟩ := exists_arranged r.found.palette all
    obtain ⟨image, u, read, rfl⟩ := (reads (image = ·)).mpr ⟨all, indexed, image, made, rfl⟩
    refine .inl ⟨_, u, read, width, height, ?_⟩
    rw [Image.length_pixels, width, height]
  · have room : ¬(r.stream.seek info.dataOffset).remaining < stride info * info.height :=
      Nat.not_lt.mpr enough
    have there := Stream.length_ahead (sound.seek info.dataOffset)
    rcases readRows_cases (r := { r with stream := r.stream.seek info.dataOffset })
        (sound.seek _) info info.height [] (there ▸ enough) with ⟨rows, u, read⟩ | ⟨u, refused⟩
    · have finished : Reaches (fun _ _ => True) (readRows info info.height [])
          { r with stream := r.stream.seek info.dataOffset } := ⟨rows, u, read, trivial⟩
      rw [reaches_readRows (r := { r with stream := r.stream.seek info.dataOffset })
        (sound.seek _)] at finished
      exact absurd finished.2.1 indexed
    · refine .inr ⟨u, ?_⟩
      rw [readImage, bind_of_ok (setPosition_eq_ok _ r), fits.sizesHeld.needed,
        bind_of_ok (get_eq_ok _), if_neg room]
      exact bind_of_error refused

end Image

/-! ### Readers -/

/-- The reader holds the bytes that are there against the size of all rows as it is. -/
structure Measured (s : Stream) (info : Info) (t : Decoder)
    (result : EStateM.Result Error Decoder Image) : Prop where
  short : s.length - info.dataOffset < stride info * info.height →
    result = .error (.io (.notEnough (stride info * info.height) (s.length - info.dataOffset)))
      { t with stream := s.seek info.dataOffset }
  enough : s.Sound → stride info * info.height ≤ s.length - info.dataOffset →
    (∃ image u, result = .ok image u ∧ image.width = info.width ∧ image.height = info.height ∧
      image.pixels.length = info.width * info.height) ∨ ∃ u, result = .error unindexed u

/-- An image is measured with the headers that were read, whatever was asked before. -/
theorem sizes_of_decodeHeaders {s : Stream} {options : DecoderOptions}
    (requests : List ImageRequest) {t : Decoder}
    (read : decodeHeaders (askAll ask requests (Decoder.start s options)).2 = .ok () t) :
    ∃ info, t.found.info = some info ∧ SizesHeld info ∧
      Measured s info t (decode (askAll ask requests (Decoder.start s options)).2) := by
  have first : Leaves (Standing s (Unread options))
      (fun _ => Standing s fun c => ∃ info, c.info = some info ∧ info.InFields)
      decodeHeaders := by
    intro r standing
    have ends := leaves_decodeHeaders r standing
    cases ran : decodeHeaders r with
    | ok a u =>
      exact .ok ⟨(ends.of_ok ran).place, inFields_of_decodeHeaders standing.found.info ran⟩
    | error e u => exact .error (ends.of_error ran)
  have start : Standing s (Unread options) (Decoder.start s options) := standing_start ⟨rfl, rfl⟩
  obtain ⟨⟨position, place⟩, info, known, fits⟩ := known_of_headers decode_eq first
    (fun u ⟨_, known, _⟩ => decodeHeaders_again known) keeps_readFound start requests read
  have decoded : decode (askAll ask requests (Decoder.start s options)).2 = readImage info t := by
    rw [decode_eq, bind_of_ok read, readFound_eq known]
  have size : t.stream.length = s.length := by rw [place, Stream.length_seek]
  rw [decoded]
  refine ⟨info, known, fits.sizesHeld, ?_, ?_⟩
  · intro few
    rw [← size] at few ⊢
    rw [readImage_short fits.sizesHeld few, place]
    rfl
  · intro sound enough
    rw [← size] at enough
    exact readImage_enough (place ▸ sound.seek position) fits enough

end PackageAssets.Bmp
