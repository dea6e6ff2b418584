import PackageAssets.Proofs.Bmp.Sizes
import PackageAssets.Proofs.Png.Sizes
import PackageAssets.Proofs.Tga.Sizes

/-!
# Sizes that do not wrap

A header says how large an image is, and nothing keeps it from saying too much.
Before a reader makes room for an image it compares what the header says with the
bytes that are there. The comparison is with the size as it is, since no word on
the way to it, or from it to the pixels, loses anything; the one product that may
be too large for a word is refused for just that.
-/
namespace PackageAssets

open Reading

/--
Whatever was asked before and whatever the limits, a reader whose headers were read computes every
size it needs without loss, and measures the image with it. Inflated data of a PNG is held against
the size of all its rows, which is refused if it is no count. For a BMP and a TGA it is what the
window has from the place of the pixels on. The source is shorter than `2 ^ 63` bytes, as all memory
is.
-/
theorem decode_measures {s : Stream} (held : s.source.length < 2 ^ 63) (inflate : Png.Inflater)
    (options : DecoderOptions) (requests : List ImageRequest) :
    (∀ t, let r := (askAll (Png.ask inflate) requests (Png.Decoder.start s options)).2
      Png.decodeHeaders r = .ok () t →
        ∃ header, t.found.header = some header ∧ Png.SizesHeld header ∧
          ∀ data, inflate options.confirmChecksums t.found.compressed = .ok data →
            Png.Measured header data (outcomeOf (Png.decode inflate r))) ∧
    (∀ t, let r := (askAll Bmp.ask requests (Bmp.Decoder.start s options)).2
      Bmp.decodeHeaders r = .ok () t →
        ∃ info, t.found.info = some info ∧ Bmp.SizesHeld info ∧
          Bmp.Measured s info t (Bmp.decode r)) ∧
    ∀ t, let r := (askAll Tga.ask requests (Tga.Decoder.start s options)).2
      Tga.decodeHeaders r = .ok () t →
        ∃ position, let bytes := (s.seek position).following
          t.found.info = some (Tga.infoAt position bytes) ∧ Tga.SizesHeld position bytes ∧
            Tga.Measured s (Tga.infoAt position bytes) t (Tga.decode r) :=
  ⟨fun _ => Png.sizes_of_decodeHeaders requests, fun _ => Bmp.sizes_of_decodeHeaders requests,
    fun _ => Tga.sizes_of_decodeHeaders held requests⟩

/-- A PNG with one row of a pixel, whose header has the largest sides there are. -/
def vastPng : Stream :=
  .ofBytes [137, 80, 78, 71, 13, 10, 26, 10,
    0, 0, 0, 13, 73, 72, 68, 82, 255, 255, 255, 255, 255, 255, 255, 255, 8, 6, 0, 0, 0, 0, 0, 0, 0,
    0, 0, 0, 16, 73, 68, 65, 84, 120, 1, 1, 5, 0, 250, 255, 0, 1, 2, 3, 4, 0, 25, 0, 11, 0, 0, 0, 0,
    0, 0, 0, 0, 73, 69, 78, 68, 0, 0, 0, 0]

/-- No limits, and checksums that are not looked at. -/
def anySize : DecoderOptions :=
  { maxWidth := 2 ^ 64 - 1, maxHeight := 2 ^ 64 - 1, confirmChecksums := false }

theorem decode_measures_vastPng :
    ∃ t, Png.decodeHeaders (Png.Decoder.start vastPng anySize) = .ok () t ∧
      outcomeOf (Png.decode .zlib (Png.Decoder.start vastPng anySize)) =
        .error (.largeDimensions (2 ^ 32 - 1) (2 ^ 32 - 1)) := by
  have computed :
      let result := Png.decodeHeaders (Png.Decoder.start vastPng anySize)
      (outcomeOf result).isOk = true ∧
        (leftBy result).found.header = some ⟨2 ^ 32 - 1, 2 ^ 32 - 1, 8, .rgba⟩ ∧
        (leftBy result).found.compressed =
          [120, 1, 1, 5, 0, 250, 255, 0, 1, 2, 3, 4, 0, 25, 0, 11] := by
    decide +kernel
  cases read : Png.decodeHeaders (Png.Decoder.start vastPng anySize) with
  | error e t =>
    rw [read] at computed
    cases computed.1
  | ok a t =>
    rw [read] at computed
    obtain ⟨-, known, compressed⟩ := computed
    have inflated : Png.Inflater.zlib false t.found.compressed = .ok [0, 1, 2, 3, 4] := by
      rw [show t.found.compressed = _ from compressed]
      rfl
    obtain ⟨png, -, -⟩ := decode_measures (s := vastPng) (by decide) .zlib anySize []
    obtain ⟨header, same, -, measured⟩ := png t read
    cases known.symm.trans same
    exact ⟨t, rfl, (measured _ inflated).large.mpr (by decide)⟩

end PackageAssets
