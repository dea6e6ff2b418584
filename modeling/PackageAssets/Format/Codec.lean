import PackageAssets.Bmp.Decoder
import PackageAssets.Format.Error
import PackageAssets.Png.Decoder
import PackageAssets.Png.Encoder
import PackageAssets.Tga.Decoder

/-!
# Reading and writing any format

Each format can be probed for, decoded, and asked for the size of its image.
All three work on a view of the whole window, so neither the position of the
stream nor what came before it matters. Data of an unknown format is tried
for the formats in their order; the first that accepts it decides.
-/
namespace PackageAssets

/-- What the headers of an image say. -/
structure ImageInfo where
  format : ImageFormat
  width : Nat
  height : Nat
  deriving DecidableEq, Repr

/-- Work that writes notes, oldest first, and may fail. -/
abbrev Noted (ε : Type) := EStateM ε (List Note)

namespace Noted

variable {ε α : Type}

def write (notes : List Note) : Noted ε Unit := fun before => .ok () (before ++ notes)

/-- Runs a reader from its start and keeps its notes. -/
def ofReading {δ σ : Type} (wrap : δ → ε) (step : ReadingM δ σ α) (start : Reading σ) :
    Noted ε α := fun before =>
  match Reading.outcome step start with
  | (.ok a, notes) => .ok a (before ++ notes)
  | (.error e, notes) => .error (wrap e) (before ++ notes)

end Noted

namespace ImageFormat

/-- A view of the whole window of `data`. -/
def wholeView (data : Stream) : Noted ImageError Stream :=
  match data.wholeSlice with
  | .ok view => pure view
  | .error e => throw (.io e)

/-- Whether data looks like this format, and the notes of finding out. -/
def probe (format : ImageFormat) (data : Stream) : Bool × List Note :=
  match format with
  | png => (Png.probe data, [])
  | bmp => (Bmp.probe data, [])
  | tga => Tga.probe data

/-- The image in data of this format. Any inflater will do for PNG. -/
def decode (inflate : Png.Inflater) (format : ImageFormat) (data : Stream)
    (options : DecoderOptions) : Noted ImageError Image := do
  let view ← wholeView data
  match format with
  | png => Noted.ofReading .png (Png.decode inflate) (Png.Decoder.start view options)
  | bmp => Noted.ofReading .bmp Bmp.decode (Bmp.Decoder.start view options)
  | tga => Noted.ofReading .tga Tga.decode (Tga.Decoder.start view options)

/-- The size of an image, from its headers alone. -/
def dimensions (format : ImageFormat) (data : Stream) (options : DecoderOptions) :
    Noted ImageError (Option (Nat × Nat)) := do
  let view ← wholeView data
  match format with
  | png => Noted.ofReading .png (do
      Png.decodeHeaders
      return Png.Decoder.dimensions (← get)) (Png.Decoder.start view options)
  | bmp => Noted.ofReading .bmp (do
      Bmp.decodeHeaders
      return Bmp.Decoder.dimensions (← get)) (Bmp.Decoder.start view options)
  | tga => Noted.ofReading .tga (do
      Tga.decodeHeaders
      return Tga.Decoder.dimensions (← get)) (Tga.Decoder.start view options)

def readInfo (format : ImageFormat) (data : Stream) (options : DecoderOptions) :
    Noted ImageError ImageInfo := do
  match ← format.dimensions data options with
  | some (width, height) => return ⟨format, width, height⟩
  | none => throw .unknownFormat

/-- The bytes of an image in this format. Any compressor will do for PNG. -/
def encodeWith (compress : Png.Compressor) (format : ImageFormat) (image : Image)
    (options : EncoderOptions) : Noted ImageError (List UInt8) :=
  match format with
  | png =>
    match Png.encodeToBytesWith compress image options with
    | .error e => throw (.png e)
    | .ok bytes => do
      Noted.write [Png.encodedNote image bytes.length]
      return bytes
  | other => throw (.noEncoder other)

def encode : ImageFormat → Image → EncoderOptions → Noted ImageError (List UInt8) :=
  encodeWith .storing

/-- The first of some formats that recognises `data`. -/
def firstOf (data : Stream) : List ImageFormat → Option ImageFormat × List Note
  | [] => (none, [])
  | format :: others =>
    match data.wholeSlice with
    | .error _ => (none, [])
    | .ok view =>
      let (recognised, notes) := format.probe view
      if recognised then
        (some format, notes ++ [⟨.trace, .formats, "Detected format " ++ format.name⟩])
      else
        let (found, more) := firstOf data others
        (found, notes ++ more)

/-- The format of `data`, if any recognises it. -/
def guess (data : Stream) : Option ImageFormat × List Note := firstOf data all

/-- Decodes `data` in the first format that recognises it. -/
def decodeAny (inflate : Png.Inflater) (data : Stream) (options : DecoderOptions) :
    Noted ImageError (ImageFormat × Image) := do
  let (found, notes) := guess data
  Noted.write notes
  match found with
  | none => throw .unknownFormat
  | some format => return (format, ← format.decode inflate data options)

end ImageFormat

end PackageAssets
