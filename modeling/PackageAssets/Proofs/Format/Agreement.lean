import PackageAssets.Proofs.Format.Recognition

/-!
# What the readers agree on

An image is read behind its headers and has the size they say, so a format that
decodes data also tells the size of the image, and one that cannot read the
headers decodes nothing. Since data is recognised by at most one format, and by
the one that decodes it, trying the formats in turn finds what any of them finds
alone.
-/
namespace PackageAssets

def Image.size (image : Image) : Nat × Nat := (image.width, image.height)

theorem Image.size_of_ofPixels? {width height : Nat} {cells : List UInt32} {image : Image}
    (made : ofPixels? width height cells = some image) : image.size = (width, height) := by
  unfold ofPixels? at made
  split at made
  · cases made
    rfl
  · cases made

section Reader

open Reading

variable {δ σ : Type}

/-- An image is read behind the headers, and it has the size they say. -/
structure Headed (size : Reading σ → Option (Nat × Nat)) (headers : ReadingM δ σ Unit)
    (decode : ReadingM δ σ Image) (r : Reading σ) : Prop where
  refused : ∀ e t, headers r = .error e t → decode r = .error e t
  sized : ∀ image u, decode r = .ok image u →
    ∃ t, headers r = .ok () t ∧ size t = some image.size

variable {size : Reading σ → Option (Nat × Nat)} {headers : ReadingM δ σ Unit}
  {decode rest : ReadingM δ σ Image} {r : Reading σ}

theorem headed_of_bind (split : decode = headers >>= fun _ => rest)
    (made : ∀ t image u, rest t = .ok image u → size t = some image.size) :
    Headed size headers decode r := by
  subst split
  constructor
  · intro e t failed
    exact bind_of_error failed
  · intro image u decoded
    obtain ⟨_, t, read, found⟩ := bind_eq_ok_iff.mp decoded
    exact ⟨t, read, made t image u found⟩

section Noted

variable {ε α : Type} {wrap : δ → ε}

theorem outcomeOf_eq_ok_iff {x : EStateM.Result ε σ α} {a : α} :
    outcomeOf x = .ok a ↔ ∃ s, x = .ok a s := by
  cases x with
  | ok b s => simp [outcomeOf]
  | error e s => simp [outcomeOf]

/-- Notes that were written before do not matter for the outcome. -/
theorem outcomeOf_ofReading (step : ReadingM δ σ α) (r : Reading σ) (notes : List Note) :
    outcomeOf (Noted.ofReading wrap step r notes) = (outcomeOf (step r)).mapError wrap := by
  rw [Noted.ofReading, outcome]
  cases step r <;> rfl

variable (headed : Headed size headers decode r) {notes : List Note}

include headed

theorem Headed.exists_headers {image : Image}
    (decoded : outcomeOf (Noted.ofReading wrap decode r notes) = .ok image) :
    ∃ t, headers r = .ok () t ∧ size t = some image.size := by
  rw [outcomeOf_ofReading] at decoded
  cases read : decode r with
  | ok found u =>
    rw [read] at decoded
    cases decoded
    exact headed.sized image u read
  | error e u =>
    rw [read] at decoded
    cases decoded

theorem Headed.dimensions_of_decode {image : Image}
    (decoded : outcomeOf (Noted.ofReading wrap decode r notes) = .ok image) :
    outcomeOf (Noted.ofReading wrap (do
      headers
      return size (← get)) r notes) = .ok (some image.size) := by
  obtain ⟨t, read, sized⟩ := headed.exists_headers decoded
  rw [outcomeOf_ofReading, bind_of_ok read, ← sized]
  rfl

theorem Headed.decode_of_dimensions {e : ε}
    (failed : outcomeOf (Noted.ofReading wrap (do
      headers
      return size (← get)) r notes) = .error e) :
    outcomeOf (Noted.ofReading wrap decode r notes) = .error e := by
  rw [outcomeOf_ofReading] at failed ⊢
  cases read : headers r with
  | ok a t =>
    rw [bind_of_ok read] at failed
    cases failed
  | error e t =>
    rw [bind_of_error read] at failed
    cases failed
    rw [headed.refused e t read]
    rfl

end Noted

end Reader

section Formats

open Reading

theorem Png.size_of_imageOf {inflate : Inflater} {w : Walk} {image : Image}
    (made : imageOf inflate w = .ok image) :
    ∃ header, w.header = some header ∧ image.size = (header.width, header.height) := by
  unfold imageOf at made
  split at made
  · cases made
  case h_2 header known =>
    refine ⟨header, known, ?_⟩
    split at made
    · cases made
    split at made
    · cases made
    split at made
    · cases made
    case h_2 filled =>
      cases made
      exact Image.size_of_ofPixels? filled

theorem Bmp.readImage_yields (info : Info) :
    Yields (fun image => image.size = (info.width, info.height)) (readImage info) := by
  refine yields_bind fun _ => yields_bind fun r => ?_
  dsimp only
  refine yields_check (yields_bind fun rows => ?_)
  split
  case h_1 => exact yields_throw _
  case h_2 filled => exact yields_pure (Image.size_of_ofPixels? filled)

theorem Tga.readImage_yields (info : Info) :
    Yields (fun image => image.size = (info.width, info.height)) (readImage info) := by
  refine yields_bind fun _ => yields_bind fun view => ?_
  split
  case h_1 => exact yields_throw _
  case h_2 =>
    split
    case h_1 => exact yields_throw _
    case h_2 image filled =>
      have size := Image.size_of_ofPixels? filled
      exact yields_pure (by split <;> exact size)

theorem Png.headed (inflate : Inflater) (r : Decoder) :
    Headed Decoder.dimensions decodeHeaders (decode inflate) r := by
  refine headed_of_bind (decode_eq inflate) fun t image u decoded => ?_
  rw [readFound_eq] at decoded
  split at decoded
  · cases decoded
  case h_2 made =>
    cases decoded
    obtain ⟨header, known, size⟩ := size_of_imageOf made
    rw [Decoder.dimensions, known, size]
    rfl

theorem Bmp.headed (r : Decoder) : Headed Decoder.dimensions decodeHeaders decode r := by
  refine headed_of_bind decode_eq fun t image u decoded => ?_
  cases known : t.found.info with
  | none =>
    rw [readFound, bind_of_ok (soFar_eq_ok t), known] at decoded
    cases decoded
  | some info =>
    rw [readFound_eq known] at decoded
    rw [Decoder.dimensions, known, readImage_yields info t image u decoded]
    rfl

theorem Tga.headed (r : Decoder) : Headed Decoder.dimensions decodeHeaders decode r := by
  refine headed_of_bind decode_eq fun t image u decoded => ?_
  cases known : t.found.info with
  | none =>
    rw [readFound, bind_of_ok (soFar_eq_ok t), known] at decoded
    cases decoded
  | some info =>
    rw [readFound_eq known] at decoded
    rw [Decoder.dimensions, known, readImage_yields info t image u decoded]
    rfl

end Formats

namespace ImageFormat

section

variable {inflate : Png.Inflater} {data : Stream} {format : ImageFormat} {options : DecoderOptions}
  {notes : List Note}

/-- Data is decoded by a reader that starts in front of all of it. -/
theorem decode_eq (inflate : Png.Inflater) (format : ImageFormat) (data : Stream)
    (options : DecoderOptions) :
    format.decode inflate data options =
      let view := data.part 0 data.length
      match format with
      | png => Noted.ofReading .png (Png.decode inflate) (Png.Decoder.start view options)
      | bmp => Noted.ofReading .bmp Bmp.decode (Bmp.Decoder.start view options)
      | tga => Noted.ofReading .tga Tga.decode (Tga.Decoder.start view options) := by
  unfold decode wholeView
  rw [Stream.wholeSlice_eq]
  cases format <;> rfl

theorem dimensions_eq (format : ImageFormat) (data : Stream) (options : DecoderOptions) :
    format.dimensions data options =
      let view := data.part 0 data.length
      match format with
      | png => Noted.ofReading .png (do
          Png.decodeHeaders
          return Png.Decoder.dimensions (← get)) (Png.Decoder.start view options)
      | bmp => Noted.ofReading .bmp (do
          Bmp.decodeHeaders
          return Bmp.Decoder.dimensions (← get)) (Bmp.Decoder.start view options)
      | tga => Noted.ofReading .tga (do
          Tga.decodeHeaders
          return Tga.Decoder.dimensions (← get)) (Tga.Decoder.start view options) := by
  unfold dimensions wholeView
  rw [Stream.wholeSlice_eq]
  cases format <;> rfl

theorem outcomeOf_decode (inflate : Png.Inflater) (format : ImageFormat) (data : Stream)
    (options : DecoderOptions) (notes notes' : List Note) :
    outcomeOf (format.decode inflate data options notes) =
      outcomeOf (format.decode inflate data options notes') := by
  rw [decode_eq]
  cases format <;> exact (outcomeOf_ofReading ..).trans (outcomeOf_ofReading ..).symm

theorem dimensions_of_decode {image : Image}
    (decoded : outcomeOf (format.decode inflate data options notes) = .ok image) :
    outcomeOf (format.dimensions data options notes) = .ok (some image.size) := by
  rw [decode_eq] at decoded
  rw [dimensions_eq]
  cases format with
  | png => exact (Png.headed _ _).dimensions_of_decode decoded
  | bmp => exact (Bmp.headed _).dimensions_of_decode decoded
  | tga => exact (Tga.headed _).dimensions_of_decode decoded

theorem decode_of_dimensions {e : ImageError}
    (failed : outcomeOf (format.dimensions data options notes) = .error e) :
    outcomeOf (format.decode inflate data options notes) = .error e := by
  rw [dimensions_eq] at failed
  rw [decode_eq]
  cases format with
  | png => exact (Png.headed _ _).decode_of_dimensions failed
  | bmp => exact (Bmp.headed _).decode_of_dimensions failed
  | tga => exact (Tga.headed _).decode_of_dimensions failed

theorem readInfo_of_decode {image : Image}
    (decoded : outcomeOf (format.decode inflate data options notes) = .ok image) :
    outcomeOf (format.readInfo data options notes) = .ok ⟨format, image.width, image.height⟩ := by
  obtain ⟨after, measured⟩ := outcomeOf_eq_ok_iff.mp (dimensions_of_decode decoded)
  rw [readInfo, bind_of_ok measured]
  rfl

theorem probe_whole (format : ImageFormat) (data : Stream) :
    format.probe (data.part 0 data.length) = format.probe data := by
  have same : (data.part 0 data.length).wholeSlice = data.wholeSlice :=
    data.wholeSlice_whole.trans data.wholeSlice_eq.symm
  cases format with
  | png => rw [probe, probe, Png.probe, Png.probe, same]
  | bmp => rw [probe, probe, Bmp.probe, Bmp.probe, same]
  | tga => rw [probe, probe, Tga.probe, Tga.probe, same]

def recognisedAs (data : Stream) (format : ImageFormat) : Bool := (format.probe data).1

/-- The first format that recognises the data is found. -/
theorem firstOf_eq (data : Stream) (formats : List ImageFormat) :
    (firstOf data formats).1 = formats.find? (recognisedAs data) := by
  induction formats with
  | nil => rfl
  | cons format others ih =>
    rw [firstOf, Stream.wholeSlice_eq, List.find?_cons]
    dsimp only
    rw [probe_whole format data, recognisedAs]
    cases (format.probe data).1 with
    | true => rfl
    | false => exact ih

theorem decodeAny_eq (inflate : Png.Inflater) (data : Stream) (options : DecoderOptions)
    (notes : List Note) :
    decodeAny inflate data options notes = (match (guess data).1 with
      | none => throw .unknownFormat
      | some format => do return (format, ← format.decode inflate data options) :
        Noted ImageError (ImageFormat × Image)) (notes ++ (guess data).2) := rfl

variable (sound : data.Sound)

include sound

theorem decode_of_readInfo {e : ImageError}
    (failed : outcomeOf (format.readInfo data options notes) = .error e) :
    outcomeOf (format.decode inflate data options notes) = .error e := by
  apply decode_of_dimensions
  cases measured : format.dimensions data options notes with
  | ok size after =>
    -- headers that were read say how large the image is
    have known := dimensions_inStep sound.sameView format options notes
    obtain ⟨_, _, -, ⟨-, there⟩, -⟩ := known.of_ok measured
    obtain ⟨_, rfl⟩ := Option.isSome_iff_exists.mp there
    rw [readInfo, bind_of_ok measured] at failed
    cases failed
  | error e' after =>
    rw [readInfo, bind_of_error measured] at failed
    cases failed
    rfl

theorem probe_of_decode {image : Image}
    (decoded : outcomeOf (format.decode inflate data options notes) = .ok image) :
    (format.probe data).1 = true := by
  rw [decode_eq] at decoded
  cases format with
  | png =>
    obtain ⟨_, read, -⟩ := (Png.headed _ _).exists_headers decoded
    exact Png.probe_of_decodeHeaders sound read
  | bmp =>
    obtain ⟨_, read, -⟩ := (Bmp.headed _).exists_headers decoded
    exact Bmp.probe_of_decodeHeaders sound read
  | tga =>
    obtain ⟨_, read, -⟩ := (Tga.headed _).exists_headers decoded
    exact Tga.probe_of_decodeHeaders sound read

theorem guess_eq_some_iff : (guess data).1 = some format ↔ recognisedAs data format = true := by
  rw [guess, firstOf_eq]
  constructor
  · exact fun found => List.find?_some found
  · intro recognised
    have some : (all.find? (recognisedAs data)).isSome :=
      List.find?_isSome.mpr ⟨format, mem_all format, recognised⟩
    obtain ⟨other, found⟩ := Option.isSome_iff_exists.mp some
    have also : recognisedAs data other = true := List.find?_some found
    rw [found, eq_of_probe sound also recognised]

theorem decodeAny_eq_ok_iff {image : Image} :
    outcomeOf (decodeAny inflate data options notes) = .ok (format, image) ↔
      outcomeOf (format.decode inflate data options notes) = .ok image := by
  rw [decodeAny_eq, outcomeOf_decode inflate format data options notes (notes ++ (guess data).2)]
  constructor
  · intro decoded
    cases guessed : (guess data).1 with
    | none =>
      rw [guessed] at decoded
      cases decoded
    | some other =>
      rw [guessed] at decoded
      obtain ⟨s, decoded⟩ := outcomeOf_eq_ok_iff.mp decoded
      obtain ⟨found, t, read, made⟩ := bind_eq_ok_iff.mp decoded
      cases made
      exact congrArg outcomeOf read
  · intro decoded
    have guessed := (guess_eq_some_iff sound).mpr (probe_of_decode sound decoded)
    obtain ⟨t, read⟩ := outcomeOf_eq_ok_iff.mp decoded
    rw [guessed]
    dsimp only
    rw [bind_of_ok read]
    rfl

/--
Trying the formats in turn is the same as knowing the format. Data is recognised as at most one of
the four that have a mark or a header to be recognised by, whatever can be decoded is recognised,
and so it is decoded in the first format that recognises it exactly as that format alone decodes
it, and by no other. The headers say the size of the image, and without them there is no image.
-/
theorem decodeAny_agrees (inflate : Png.Inflater) (options : DecoderOptions) (notes : List Note) :
    [Png.probe data, Bmp.probe data, (Tga.probe data).1, Psf.probe data].count true ≤ 1 ∧
      ∀ format : ImageFormat,
        (∀ image, outcomeOf (format.decode inflate data options notes) = .ok image →
          (format.probe data).1 = true ∧
          outcomeOf (format.readInfo data options notes) =
            .ok ⟨format, image.width, image.height⟩) ∧
        (∀ image, outcomeOf (decodeAny inflate data options notes) = .ok (format, image) ↔
          outcomeOf (format.decode inflate data options notes) = .ok image) ∧
        (∀ other image image', outcomeOf (format.decode inflate data options notes) = .ok image →
          outcomeOf (ImageFormat.decode inflate other data options notes) = .ok image' →
          format = other) ∧
        ∀ e, outcomeOf (format.readInfo data options notes) = .error e →
          outcomeOf (format.decode inflate data options notes) = .error e := by
  refine ⟨recognised_once sound, fun format => ⟨?_, ?_, ?_, ?_⟩⟩
  · intro image decoded
    exact ⟨probe_of_decode sound decoded, readInfo_of_decode decoded⟩
  · intro image
    exact decodeAny_eq_ok_iff sound
  · intro other image image' decoded otherwise
    exact eq_of_probe sound (probe_of_decode sound decoded) (probe_of_decode sound otherwise)
  · intro e failed
    exact decode_of_readInfo sound failed

end

/-- A TGA of one pixel. -/
def onePixelTarga : Stream :=
  .ofBytes [0, 0, 2, 0, 0, 0, 0, 0, 0, 0, 0, 0, 1, 0, 1, 0, 24, 32, 10, 20, 30]

theorem decodeAny_agrees_onePixelTarga :
    onePixelTarga.Sound ∧
      outcomeOf (decode .zlib tga onePixelTarga .usual []) = .ok ⟨1, 1, [0xFF0A141E], rfl⟩ ∧
      outcomeOf (decodeAny .zlib onePixelTarga .usual []) = .ok (tga, ⟨1, 1, [0xFF0A141E], rfl⟩) ∧
      outcomeOf (readInfo tga onePixelTarga .usual []) = .ok ⟨tga, 1, 1⟩ := by
  have sound : onePixelTarga.Sound := Stream.sound_ofBytes (by decide)
  have decoded : outcomeOf (decode .zlib tga onePixelTarga .usual []) =
      .ok ⟨1, 1, [0xFF0A141E], rfl⟩ := rfl
  obtain ⟨-, agrees⟩ := decodeAny_agrees sound .zlib .usual []
  obtain ⟨recognised, alone, -, -⟩ := agrees tga
  exact ⟨sound, decoded, (alone _).mpr decoded, (recognised _ decoded).2⟩

end ImageFormat

end PackageAssets
