import PackageAssets.Image.Basic
import PackageAssets.Image.Options
import PackageAssets.Stream.Reading
import PackageAssets.Tga.Error

/-!
# Reading TGA

Uncompressed images of 24 or 32 bits per pixel. The identification and the
colour map are skipped. Rows are stored bottom up unless the descriptor says
otherwise; rows that run right to left are read left to right all the same.
-/
namespace PackageAssets.Tga

def trueColor : Nat := 2

structure Info where
  width : Nat
  height : Nat
  pixelDepth : Nat
  bottomUp : Bool
  pixelOffset : Nat
  deriving DecidableEq, Repr

structure Contents where
  options : DecoderOptions
  info : Option Info
  deriving DecidableEq

abbrev Decoder := Reading Contents

abbrev DecoderM := ReadingM Error Contents

namespace Decoder

def start (stream : Stream) (options : DecoderOptions) : Decoder :=
  Reading.start stream ⟨options, none⟩

def dimensions (d : Decoder) : Option (Nat × Nat) := d.found.info.map fun i => (i.width, i.height)

end Decoder

def readField (width : Nat) : DecoderM Nat := Reading.onStream (Stream.readNat .little width)

/-- The bytes of a colour map whose entries have `entryBits` bits. -/
def colorMapBytes (mapType length entryBits : Nat) : Nat :=
  if mapType = 1 then length * ((entryBits + 7) / 8) else 0

/-- Reads the header, unless that was done before. -/
def decodeHeaders : DecoderM Unit := do
  if (← Reading.soFar).info.isSome then return
  let idLength ← readField 1
  let mapType ← readField 1
  let imageType ← readField 1
  if imageType ≠ trueColor then throw (.unsupportedImageType imageType)
  if 1 < mapType then throw (.unsupportedColorMapType mapType)
  let _firstEntry ← readField 2
  let mapLength ← readField 2
  let entryBits ← readField 1
  let _xOrigin ← readField 2
  let _yOrigin ← readField 2
  let width ← readField 2
  let height ← readField 2
  let pixelDepth ← readField 1
  let descriptor ← readField 1
  if pixelDepth ≠ 24 ∧ pixelDepth ≠ 32 then throw (.unsupportedPixelDepth pixelDepth)
  if width = 0 ∨ height = 0 then throw .zeroDimensions
  if (← Reading.soFar).options.refuses width height then throw (.tooLarge width height)
  if descriptor / 16 % 2 = 1 then
    Reading.note .warn .targa "Right to left TGA rows are read left to right"
  let pixelOffset :=
    (← get).stream.position + idLength + colorMapBytes mapType mapLength entryBits
  let bottomUp : Bool := descriptor / 32 % 2 = 0
  Reading.note .trace .targa s!"Width: {width}"
  Reading.note .trace .targa s!"Height: {height}"
  Reading.note .trace .targa s!"Pixel depth: {pixelDepth}"
  Reading.note .trace .targa s!"Flip: {bottomUp}"
  Reading.modifyFound fun c =>
    { c with info := some ⟨width, height, pixelDepth, bottomUp, pixelOffset⟩ }

/-- Whether a view of `stream` has a header that can be read, and the notes of reading it. -/
def probe (stream : Stream) : Bool × List Note :=
  match stream.wholeSlice with
  | .error _ => (false, [])
  | .ok view =>
    let (result, notes) := Reading.outcome decodeHeaders (Decoder.start view .usual)
    (result.isOk, notes)

/-- A pixel of blue, green, red and perhaps alpha. -/
def cellOf : List UInt8 → UInt32
  | [blue, green, red] => (Color.solid red green blue).pack
  | [blue, green, red, alpha] => (Color.mk red green blue alpha).pack
  | _ => 0

def decode : DecoderM Image := do
  decodeHeaders
  match (← Reading.soFar).info with
  | none => throw .zeroDimensions
  | some info => do
    let pixelSize := info.pixelDepth / 8
    Reading.onStream (Stream.setPosition info.pixelOffset)
    let view ← Reading.onStream (Stream.readStream (info.width * info.height * pixelSize))
    match Stream.readRemaining view with
    | .error e _ => throw (.io e)
    | .ok data _ =>
      let cells := (blocks pixelSize (data.length / pixelSize) data).map cellOf
      match Image.ofPixels? info.width info.height cells with
      | none => throw .zeroDimensions
      | some image => return if info.bottomUp then image.flipY else image

end PackageAssets.Tga
