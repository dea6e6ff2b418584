import PackageAssets.Proofs.Format.Agreement
import PackageAssets.Proofs.Stream.Fronts

/-!
# Images that are cut short

What is decoded of the front of a BMP or of a TGA is its image, or too few bytes
are found. The palette and the pixels may stand anywhere, so a cut may well leave
all that matters; but a reader of these formats takes nothing from the end of the
data, and checks nothing against it but how many bytes are left.
-/
namespace PackageAssets

open Reading

/-! ### BMP -/

namespace Bmp

theorem bearsCut_readField (width : Nat) :
    BearsCut (Truncated Error.kind) Fronted (readField width) :=
  onStream_bearsCut (fun _ => rfl) (Stream.takes_readNat .little width).bearsCut

theorem bearsCut_readSigned : BearsCut (Truncated Error.kind) Fronted readSigned :=
  onStream_bearsCut (fun _ => rfl) (Stream.takes_readInt _).bearsCut

theorem bearsCut_readExact (count : Nat) : BearsCut (Truncated Error.kind) Fronted
    (onStream (Stream.readExact count) : DecoderM (List UInt8)) :=
  onStream_bearsCut (fun _ => rfl) (Stream.takes_readExact count).bearsCut

theorem bearsCut_skip (count : Nat) : BearsCut (Truncated Error.kind) Fronted
    (onStream (Stream.skip count) : DecoderM Unit) :=
  onStream_bearsCut (fun _ => rfl) (Stream.skip_bearsCut count)

theorem bearsCut_setPosition (position : Nat) : BearsCut (Truncated Error.kind) Fronted
    (onStream (Stream.setPosition position) : DecoderM Unit) :=
  onStream_bearsCut (fun _ => rfl) (Stream.setPosition_bearsCut position)

theorem bearsCut_readColors (count : Nat) :
    BearsCut (Truncated Error.kind) Fronted (readColors count) := by
  induction count with
  | zero => exact bearsCut_pure ()
  | succ count ih =>
    refine bearsCut_bind (bearsCut_readExact 4) fun bytes => ?_
    exact bearsCut_bind (modifyFound_bearsCut _) fun _ => ih

theorem bearsCut_readPalette (infoSize colorsUsed : Nat) :
    BearsCut (Truncated Error.kind) Fronted (readPalette infoSize colorsUsed) := by
  unfold readPalette
  refine bearsCut_optional (note_bearsCut _ _ _) ?_
  refine bearsCut_bind (bearsCut_setPosition _) fun _ => ?_
  exact bearsCut_bind (modifyFound_bearsCut _) fun _ => bearsCut_readColors _

theorem bearsCut_decodeHeaders : BearsCut (Truncated Error.kind) Fronted decodeHeaders := by
  unfold decodeHeaders
  refine bearsCut_bind soFar_bearsCut fun c => bearsCut_ite (bearsCut_pure ()) ?_
  refine bearsCut_bind (bearsCut_readExact _) fun found => bearsCut_check ?_
  refine bearsCut_bind (bearsCut_skip 8) fun _ => ?_
  refine bearsCut_bind (bearsCut_readField 4) fun dataOffset => ?_
  refine bearsCut_bind (bearsCut_readField 4) fun infoSize => bearsCut_check ?_
  refine bearsCut_bind bearsCut_readSigned fun signedWidth => ?_
  refine bearsCut_bind bearsCut_readSigned fun signedHeight => bearsCut_check ?_
  refine bearsCut_bind soFar_bearsCut fun c => bearsCut_check ?_
  refine bearsCut_bind (bearsCut_readField 2) fun planes => bearsCut_check ?_
  refine bearsCut_bind (bearsCut_readField 2) fun depth => bearsCut_check ?_
  refine bearsCut_bind (bearsCut_readField 4) fun compression => bearsCut_check ?_
  refine bearsCut_bind (bearsCut_skip 12) fun _ => ?_
  refine bearsCut_bind (bearsCut_readField 4) fun colorsUsed => ?_
  refine bearsCut_bind (note_bearsCut _ _ _) fun _ => ?_
  refine bearsCut_bind (note_bearsCut _ _ _) fun _ => ?_
  refine bearsCut_bind (note_bearsCut _ _ _) fun _ => ?_
  refine bearsCut_bind (note_bearsCut _ _ _) fun _ => ?_
  exact bearsCut_optional (bearsCut_readPalette _ _) (modifyFound_bearsCut _)

theorem bearsCut_readRows (info : Info) (count : Nat) (done : List (List UInt32)) :
    BearsCut (Truncated Error.kind) Fronted (readRows info count done) := by
  induction count generalizing done with
  | zero => exact bearsCut_pure done
  | succ count ih =>
    refine bearsCut_bind (bearsCut_readExact _) fun bytes => ?_
    refine bearsCut_bind soFar_bearsCut fun c => ?_
    cases rowCells info c.palette bytes with
    | error e => exact bearsCut_throw e
    | ok cells => exact ih _

theorem bearsCut_readImage (info : Info) :
    BearsCut (Truncated Error.kind) Fronted (readImage info) := by
  unfold readImage
  refine bearsCut_bind (bearsCut_setPosition _) fun _ => ?_
  refine remaining_bearsCut (fun left => Error.io (.notEnough _ left)) (fun _ => rfl) ?_
  refine bearsCut_bind (bearsCut_readRows _ _ _) fun rows => ?_
  dsimp only
  split
  · exact bearsCut_throw _
  · exact bearsCut_pure _

theorem bearsCut_decode : BearsCut (Truncated Error.kind) Fronted decode := by
  rw [decode_eq]
  refine bearsCut_bind bearsCut_decodeHeaders fun _ => bearsCut_bind soFar_bearsCut fun c => ?_
  cases c.info with
  | none => exact bearsCut_throw _
  | some info => exact bearsCut_readImage info

end Bmp

/-! ### TGA -/

namespace Tga

theorem bearsCut_readField (width : Nat) :
    BearsCut (Truncated Error.kind) Fronted (readField width) :=
  onStream_bearsCut (fun _ => rfl) (Stream.takes_readNat .little width).bearsCut

theorem bearsCut_decodeHeaders : BearsCut (Truncated Error.kind) Fronted decodeHeaders := by
  unfold decodeHeaders
  refine bearsCut_bind soFar_bearsCut fun c => bearsCut_ite (bearsCut_pure ()) ?_
  refine bearsCut_bind (bearsCut_readField 1) fun idLength => ?_
  refine bearsCut_bind (bearsCut_readField 1) fun mapType => ?_
  refine bearsCut_bind (bearsCut_readField 1) fun imageType => bearsCut_check (bearsCut_check ?_)
  refine bearsCut_bind (bearsCut_readField 2) fun firstEntry => ?_
  refine bearsCut_bind (bearsCut_readField 2) fun mapLength => ?_
  refine bearsCut_bind (bearsCut_readField 1) fun entryBits => ?_
  refine bearsCut_bind (bearsCut_readField 2) fun xOrigin => ?_
  refine bearsCut_bind (bearsCut_readField 2) fun yOrigin => ?_
  refine bearsCut_bind (bearsCut_readField 2) fun width => ?_
  refine bearsCut_bind (bearsCut_readField 2) fun height => ?_
  refine bearsCut_bind (bearsCut_readField 1) fun pixelDepth => ?_
  refine bearsCut_bind (bearsCut_readField 1) fun descriptor => bearsCut_check (bearsCut_check ?_)
  refine bearsCut_bind soFar_bearsCut fun c => bearsCut_check ?_
  refine bearsCut_optional (note_bearsCut _ _ _) ?_
  refine get_bearsCut (fun r t fronted => by rw [fronted.stream.position]) fun r => ?_
  refine bearsCut_bind (note_bearsCut _ _ _) fun _ => ?_
  refine bearsCut_bind (note_bearsCut _ _ _) fun _ => ?_
  refine bearsCut_bind (note_bearsCut _ _ _) fun _ => ?_
  refine bearsCut_bind (note_bearsCut _ _ _) fun _ => ?_
  exact modifyFound_bearsCut _

/-- An image that is not empty needs some bytes, so a cut in front of them is noticed. -/
theorem readImage_upToCut {info : Info} (sensible : info.Sensible) {r t : Decoder}
    (fronted : Fronted r t) :
    UpToCut (Truncated Error.kind) (fun image image' _ _ => image = image') (readImage info r)
      (readImage info t) := by
  have positive : 0 < info.width * info.height * pixelSize info :=
    Nat.mul_pos (Nat.mul_pos sensible.width sensible.height) sensible.pixelSize_pos
  unfold readImage
  refine (onStream_bearsCut (fun _ => rfl) (Stream.setPosition_bearsCut _) r t fronted).bind ?_
  rintro _ _ r t - ⟨-, fronted⟩
  refine (onStream_upToCut (fun _ => rfl) fronted.found
    (Stream.readStream_upToCut fronted.stream positive)).bind ?_
  rintro v w r t - ⟨⟨⟨whole, part, same, size⟩, -⟩, -⟩
  obtain ⟨image, made⟩ := exists_image sensible size
  rw [Stream.readRemaining_eq whole, Stream.readRemaining_eq part, same]
  dsimp only
  rw [made]
  exact upToCut_ok rfl

theorem decode_upToCut {s t : Stream} (front : Stream.Front s t) (options : DecoderOptions) :
    UpToCut (Truncated Error.kind) (fun image image' _ _ => image = image')
      (decode (Decoder.start s options)) (decode (Decoder.start t options)) := by
  have start : Fronted (Decoder.start s options) (Decoder.start t options) :=
    fronted_start front _
  rw [decode_eq]
  refine (bearsCut_decodeHeaders _ _ start).bind ?_
  rintro _ _ r r' read ⟨-, fronted⟩
  -- the headers of the whole data were read, so the image is not empty
  obtain ⟨_, _, beside, alike, info, known⟩ := (decodeHeaders_inStep front.whole.twins
    (start_together front.whole.sameView options)).of_ok read
  rw [read] at beside
  cases beside
  have same : r'.found.info = some info := by rw [fronted.found, known]
  rw [readFound_eq known, readFound_eq same]
  exact readImage_upToCut (alike.found.sensible info known) fronted

end Tga

/-! ### Both formats -/

/--
What is decoded of the front of a BMP or of a TGA is the image that is decoded of all of it, or the
failure says that the data is truncated. It is never another image, and no failure of another kind.
-/
theorem decode_of_front {s t : Stream} (front : Stream.Front s t) (options : DecoderOptions)
    (image : Image) :
    (outcomeOf (Bmp.decode (Bmp.Decoder.start s options)) = .ok image →
      outcomeOf (Bmp.decode (Bmp.Decoder.start t options)) = .ok image ∨
        ∃ e, outcomeOf (Bmp.decode (Bmp.Decoder.start t options)) = .error e ∧
          e.kind = .truncated) ∧
    (outcomeOf (Tga.decode (Tga.Decoder.start s options)) = .ok image →
      outcomeOf (Tga.decode (Tga.Decoder.start t options)) = .ok image ∨
        ∃ e, outcomeOf (Tga.decode (Tga.Decoder.start t options)) = .error e ∧
          e.kind = .truncated) := by
  constructor
  · intro decoded
    exact (Bmp.bearsCut_decode _ _ (fronted_start front _)).outcome
      (fun _ _ _ _ together => together.1) decoded
  · intro decoded
    exact (Tga.decode_upToCut front options).outcome (fun _ _ _ _ same => same) decoded

/-- A bitmap of one pixel, which the header puts at the start of the file, and three more bytes. -/
def pixelInHeader : List UInt8 :=
  Bmp.magic ++ [7, 0, 0, 0, 0, 0, 0, 0] ++ [0, 0, 0, 0] ++ [40, 0, 0, 0] ++ [1, 0, 0, 0] ++
    [1, 0, 0, 0] ++ [1, 0] ++ [24, 0] ++ List.replicate 20 0 ++ [1, 2, 3]

theorem decode_of_front_pixelInHeader :
    let bitmap := fun n => outcomeOf (Bmp.decode (Bmp.Decoder.start
      (.ofBytes (pixelInHeader.take n)) .usual))
    let targa := fun n => outcomeOf (Tga.decode (Tga.Decoder.start
      (.ofBytes (ImageFormat.onePixelTarga.source.content.take n)) .usual))
    bitmap 53 = .ok ⟨1, 1, [0xFF424D07], rfl⟩ ∧ bitmap 50 = .ok ⟨1, 1, [0xFF424D07], rfl⟩ ∧
      bitmap 49 = .error (.io (.notEnough 4 3)) ∧ targa 21 = .ok ⟨1, 1, [0xFF0A141E], rfl⟩ ∧
      ∀ n,
        (bitmap n = .ok ⟨1, 1, [0xFF424D07], rfl⟩ ∨
          ∃ e, bitmap n = .error e ∧ e.kind = .truncated) ∧
        (targa n = .ok ⟨1, 1, [0xFF0A141E], rfl⟩ ∨
          ∃ e, targa n = .error e ∧ e.kind = .truncated) := by
  intro bitmap targa
  have whole : bitmap 53 = .ok ⟨1, 1, [0xFF424D07], rfl⟩ := by decide +kernel
  have whole' : targa 21 = .ok ⟨1, 1, [0xFF0A141E], rfl⟩ := by decide +kernel
  refine ⟨whole, by decide +kernel, by decide +kernel, whole', fun n => ⟨?_, ?_⟩⟩
  · have front := Stream.front_ofBytes (by decide) (pixelInHeader.take_prefix n)
    exact (decode_of_front front .usual _).1 whole
  · have front := Stream.front_ofBytes (by decide)
      (ImageFormat.onePixelTarga.source.content.take_prefix n)
    exact (decode_of_front front .usual _).2 whole'

end PackageAssets
