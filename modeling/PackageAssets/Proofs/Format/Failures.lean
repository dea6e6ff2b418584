import PackageAssets.Proofs.Format.InStep
import PackageAssets.Proofs.Psf.InStep

/-!
# What readers fail with

A reader of bytes in memory fails because of the bytes: they are of another
format, or cut short. That holds for any window and any position, and for
requests after requests that failed, for which a reader next to itself is in
step. The answers a reader keeps for a missing header, or for pixels of another
number than the headers say, are never given.
-/
namespace PackageAssets

namespace Reading

variable {ε σ α β ρ : Type}

/-- Whatever is asked, and in whatever order, fails only because of the data. -/
def OnlyOfData (kind : ε → ErrorClass) (ask : ρ → ReadingM ε σ α) (r : Reading σ) : Prop :=
  ∀ requests e, .error e ∈ (askAll ask requests r).1 → OfData kind e

/-- Whatever was asked before, behind headers that are read the step has no failure `fallback`. -/
def Avoids (fallback : σ → ε → Prop) (ask : ρ → ReadingM ε σ α) (headers : ReadingM ε σ Unit)
    (step : ReadingM ε σ β) (r : Reading σ) : Prop :=
  ∀ requests t e u, headers (askAll ask requests r).2 = .ok () t →
    step (askAll ask requests r).2 = .error e u → ¬fallback t.found e

theorem onlyOfData {kind : ε → ErrorClass} {ask : ρ → ReadingM ε σ α}
    {kept : Reading σ → Reading σ → Prop}
    (step : ∀ request r r', kept r r' →
      InStep (OfData kind) kept (Equally kept) (ask request r) (ask request r'))
    {r : Reading σ} (start : kept r r) : OnlyOfData kind ask r := fun requests =>
  (askAll_inStep step requests start).2.2

theorem avoids {admitted : ε → Prop} {ask : ρ → ReadingM ε σ α} {headers : ReadingM ε σ Unit}
    {image : ReadingM ε σ β} {fallback : σ → ε → Prop} {kept : Reading σ → Reading σ → Prop}
    (step : ∀ request r r', kept r r' →
      InStep admitted kept (Equally kept) (ask request r) (ask request r'))
    (image_avoids : ∀ r t e u, kept r r → headers r = .ok () t → image r = .error e u →
      ¬fallback t.found e)
    {r : Reading σ} (start : kept r r) : Avoids fallback ask headers image r := by
  intro requests t e u read failed
  exact image_avoids _ t e u (askAll_inStep step requests start).2.1 read failed

end Reading

/-! ### Answers that are never given -/

/-- There is no header, or not a cell for every pixel. -/
def Png.Fallback (w : Walk) (e : Error) : Prop :=
  e = .missingHeader ∨ ∃ header, w.header = some header ∧
    e = .shortImageData (Count.clamp (header.width * header.height)) 0

theorem Png.not_fallback {w : Walk} {header : Header} (known : w.header = some header) {e : Error}
    (failure : PixelFailure header e) : ¬Fallback w e := by
  rintro (missing | ⟨other, same, mismatch⟩)
  · rcases failure with _ | ⟨_ | _ | _⟩ <;> cases missing
  · cases known.symm.trans same
    cases failure with
    | inflate => cases mismatch
    | cells failure =>
      cases failure with
      | large => cases mismatch
      | filter => cases mismatch
      | short found few =>
        -- every row has a filter byte in front, so more bytes are expected than there are pixels
        injection mismatch with size
        have clamped : Count.clamp (header.width * header.height) ≤ header.width * header.height :=
          Nat.min_le_left ..
        have wide : header.width < header.width * header.color.components + 1 :=
          Nat.lt_succ_of_le (Nat.le_mul_of_pos_right _ header.color.components_pos)
        have high : 0 < header.height := Nat.pos_of_lt_mul_left few
        have more := Nat.mul_lt_mul_of_pos_right wide high
        omega

/-- The image is not known, or a row does not fit into it. -/
def Bmp.Fallback (_ : Contents) (e : Error) : Prop :=
  e = .invalid "Headers not decoded" ∨ e = .invalid "Row outside the image"

theorem Bmp.not_fallback {c : Contents} {e : Error} (failure : PixelFailure e) :
    ¬Fallback c e := by
  rintro (unknown | outside)
  · cases failure with
    | index => exact absurd (Error.invalid.inj unknown) (by decide)
    | short => cases unknown
  · cases failure with
    | index => exact absurd (Error.invalid.inj outside) (by decide)
    | short => cases outside

/-- The image is not known, or its pixels do not fill it. -/
def Tga.Fallback (_ : Contents) (e : Error) : Prop := e = .zeroDimensions

theorem Tga.not_fallback {c : Contents} {e : Error} (short : CutShort e) : ¬Fallback c e := by
  rintro rfl
  obtain ⟨_, _, same⟩ := short
  cases same

/-! ### Bytes in memory -/

section Formats

variable {s : Stream} (sound : s.Sound) (options : DecoderOptions)

include sound

theorem Png.onlyOfData (inflate : Inflater) :
    Reading.OnlyOfData Error.kind (ask inflate) (Decoder.start s options) :=
  Reading.onlyOfData (ask_inStep sound.twins inflate) (start_together sound.sameView options)

theorem Bmp.onlyOfData : Reading.OnlyOfData Error.kind ask (Decoder.start s options) :=
  Reading.onlyOfData (ask_inStep sound.twins) (start_together sound.sameView options)

theorem Tga.onlyOfData : Reading.OnlyOfData Error.kind ask (Decoder.start s options) :=
  Reading.onlyOfData (ask_inStep sound.twins) (start_together sound.sameView options)

theorem Psf.onlyOfData : Reading.OnlyOfData Error.kind ask (Decoder.start s) :=
  Reading.onlyOfData (ask_inStep sound.twins) (start_together sound.sameView)

theorem Png.avoids_fallback (inflate : Inflater) :
    Reading.Avoids Fallback (ask inflate) decodeHeaders (decode inflate)
      (Decoder.start s options) := by
  refine Reading.avoids (ask_inStep sound.twins inflate) ?_ (start_together sound.sameView options)
  intro r t e u together read failed
  obtain ⟨header, known, failure⟩ := pixelFailure_of_decode sound.twins together read failed
  exact not_fallback known failure

theorem Bmp.avoids_fallback :
    Reading.Avoids Fallback ask decodeHeaders decode (Decoder.start s options) := by
  refine Reading.avoids (ask_inStep sound.twins) ?_ (start_together sound.sameView options)
  intro r t e u together read failed
  exact not_fallback (pixelFailure_of_decode sound.twins together read failed)

theorem Tga.avoids_fallback :
    Reading.Avoids Fallback ask decodeHeaders decode (Decoder.start s options) := by
  refine Reading.avoids (ask_inStep sound.twins) ?_ (start_together sound.sameView options)
  intro r t e u together read failed
  exact not_fallback (cutShort_of_decode sound.twins together read failed)

end Formats

/--
Over bytes in memory nothing is blamed on the caller or on the storage, by the reader of any format
asked for anything any number of times, nor by what is done for data of any format. What a reader
would answer for a missing header or for missing pixels behind its headers is never answered; for
PSF that answer would blame the caller.
-/
theorem failures_ofData {s : Stream} (sound : s.Sound) (inflate : Png.Inflater)
    (options : DecoderOptions) :
    (Reading.OnlyOfData Png.Error.kind (Png.ask inflate) (Png.Decoder.start s options) ∧
      Reading.OnlyOfData Bmp.Error.kind Bmp.ask (Bmp.Decoder.start s options) ∧
      Reading.OnlyOfData Tga.Error.kind Tga.ask (Tga.Decoder.start s options) ∧
      Reading.OnlyOfData Psf.Error.kind Psf.ask (Psf.Decoder.start s)) ∧
    (Reading.Avoids Png.Fallback (Png.ask inflate) Png.decodeHeaders (Png.decode inflate)
        (Png.Decoder.start s options) ∧
      Reading.Avoids Bmp.Fallback Bmp.ask Bmp.decodeHeaders Bmp.decode
        (Bmp.Decoder.start s options) ∧
      Reading.Avoids Tga.Fallback Tga.ask Tga.decodeHeaders Tga.decode
        (Tga.Decoder.start s options)) ∧
    (∃ view, s.wholeSlice = .ok view) ∧
    ∀ notes,
      (∀ (format : ImageFormat) e, outcomeOf (format.decode inflate s options notes) = .error e →
        OfKnownFormat e) ∧
      (∀ (format : ImageFormat) e, outcomeOf (format.readInfo s options notes) = .error e →
        OfKnownFormat e) ∧
      ∀ e, outcomeOf (ImageFormat.decodeAny inflate s options notes) = .error e →
        OfData ImageError.kind e := by
  refine ⟨⟨?_, ?_, ?_, ?_⟩, ⟨?_, ?_, ?_⟩, ⟨_, s.wholeSlice_eq⟩, fun notes => ⟨?_, ?_, ?_⟩⟩
  · exact Png.onlyOfData sound options inflate
  · exact Bmp.onlyOfData sound options
  · exact Tga.onlyOfData sound options
  · exact Psf.onlyOfData sound
  · exact Png.avoids_fallback sound options inflate
  · exact Bmp.avoids_fallback sound options
  · exact Tga.avoids_fallback sound options
  · intro format e failed
    exact (ImageFormat.decode_inStep sound.sameView inflate format options
      notes).admitted_of_outcome failed
  · intro format e failed
    exact (ImageFormat.readInfo_inStep sound.sameView format options notes).admitted_of_outcome
      failed
  · intro e failed
    exact (ImageFormat.decodeAny_inStep sound.sameView inflate options notes).admitted_of_outcome
      failed

/-- The magic bytes of a bitmap in a window of three bytes. -/
def Bmp.cutBehindMagic : Stream := ⟨.ofBytes [0, 0x42, 0x4D, 0], .start (.slice 1 4)⟩

theorem failures_ofData_cutBehindMagic :
    Bmp.cutBehindMagic.Sound ∧
      (Reading.askAll Bmp.ask [.headers, .image] (Bmp.Decoder.start Bmp.cutBehindMagic .usual)).1 =
        [.error (.io (.notEnough 4 0)), .error (.io (.notEnough 2 0))] ∧
      Reading.OnlyOfData Bmp.Error.kind Bmp.ask (Bmp.Decoder.start Bmp.cutBehindMagic .usual) := by
  have sound : Bmp.cutBehindMagic.Sound := ⟨⟨4, rfl⟩, by decide, by decide⟩
  exact ⟨sound, rfl, (failures_ofData sound .zlib .usual).1.2.1⟩

end PackageAssets
