import PackageAssets.Bmp.Error
import PackageAssets.Image.Basic
import PackageAssets.Image.Options
import PackageAssets.Stream.Reading

/-!
# Reading BMP

Uncompressed images of 8 bits per pixel with a palette, or of 24 or 32 bits.
Rows are padded to a multiple of four bytes and stored bottom up unless the
height is negative. Pixels are opaque: neither a palette nor the fourth byte
of a pixel carries alpha. The pixel data and the palette are found at fixed
places in the window, whatever the position the reading started at.
-/
namespace PackageAssets.Bmp

def magic : List UInt8 := [0x42, 0x4D]

/-- The size of the file header, in front of the information header. -/
def fileHeaderSize : Nat := 14

def headerSizes : List Nat := [40, 52, 56, 108, 124]

def depths : List Nat := [8, 24, 32]

def largestPalette : Nat := 256

structure Info where
  width : Nat
  height : Nat
  depth : Nat
  bottomUp : Bool
  dataOffset : Nat
  deriving DecidableEq, Repr

structure Contents where
  options : DecoderOptions
  info : Option Info
  /-- The colours of an image of 8 bits per pixel, as cells. -/
  palette : List UInt32
  deriving DecidableEq

abbrev Decoder := Reading Contents

abbrev DecoderM := ReadingM Error Contents

namespace Decoder

def start (stream : Stream) (options : DecoderOptions) : Decoder :=
  Reading.start stream ⟨options, none, []⟩

def dimensions (d : Decoder) : Option (Nat × Nat) := d.found.info.map fun i => (i.width, i.height)

def depth (d : Decoder) : Option Nat := d.found.info.map Info.depth

end Decoder

def readField (width : Nat) : DecoderM Nat := Reading.onStream (Stream.readNat .little width)

def readSigned : DecoderM Int := Reading.onStream (Stream.readInt ⟨4, true, .little⟩)

/-- Whether a view of `stream` starts with the magic bytes and has a known header size. -/
def probe (stream : Stream) : Bool :=
  match stream.wholeSlice with
  | .error _ => false
  | .ok view =>
    match Stream.readExact magic.length view with
    | .error _ _ => false
    | .ok found after =>
      if found = magic then
        match Stream.readNat .little 4 (after.seek fileHeaderSize) with
        | .ok size _ => headerSizes.contains size
        | .error _ _ => false
      else false

/-- A pixel of blue, green and red bytes; a fourth one is not looked at. -/
def cellOf : List UInt8 → UInt32
  | blue :: green :: red :: _ => (Color.solid red green blue).pack
  | _ => 0

/-- Reads colours of four bytes each behind those of the palette so far. -/
def readColors : (count : Nat) → DecoderM Unit
  | 0 => pure ()
  | count + 1 => do
    let bytes ← Reading.onStream (Stream.readExact 4)
    Reading.modifyFound fun c => { c with palette := c.palette ++ [cellOf bytes] }
    readColors count

def paletteSize (colorsUsed : Nat) : Nat :=
  if colorsUsed = 0 ∨ largestPalette < colorsUsed then largestPalette else colorsUsed

def readPalette (infoSize colorsUsed : Nat) : DecoderM Unit := do
  if largestPalette < colorsUsed then
    Reading.note .warn .bitmap s!"Palette of {colorsUsed} colors, only reading 256"
  Reading.onStream (Stream.setPosition (fileHeaderSize + infoSize))
  Reading.modifyFound fun c => { c with palette := [] }
  readColors (paletteSize colorsUsed)

/-- Reads the headers and the palette, unless that was done before. -/
def decodeHeaders : DecoderM Unit := do
  if (← Reading.soFar).info.isSome then return
  let found ← Reading.onStream (Stream.readExact magic.length)
  if found ≠ magic then throw .badMagic
  Reading.onStream (Stream.skip 8)
  let dataOffset ← readField 4
  let infoSize ← readField 4
  if ¬headerSizes.contains infoSize then throw (.unsupportedHeaderSize infoSize)
  let signedWidth ← readSigned
  let signedHeight ← readSigned
  if signedWidth ≤ 0 ∨ signedHeight = 0 then throw .zeroDimensions
  let bottomUp : Bool := 0 < signedHeight
  let width := signedWidth.natAbs
  let height := signedHeight.natAbs
  if (← Reading.soFar).options.refuses width height then throw (.tooLarge width height)
  let planes ← readField 2
  if planes ≠ 1 then throw (.invalid "Invalid BMP header")
  let depth ← readField 2
  if ¬depths.contains depth then throw (.unsupportedDepth depth)
  let compression ← readField 4
  if compression ≠ 0 then throw (.unsupportedCompression compression)
  Reading.onStream (Stream.skip 12)
  let colorsUsed ← readField 4
  Reading.note .trace .bitmap s!"Width: {width}"
  Reading.note .trace .bitmap s!"Height: {height}"
  Reading.note .trace .bitmap s!"Depth: {depth}"
  Reading.note .trace .bitmap s!"Bottom up: {bottomUp}"
  if depth = 8 then readPalette infoSize colorsUsed
  Reading.modifyFound fun c => { c with info := some ⟨width, height, depth, bottomUp, dataOffset⟩ }

/-- The bytes of a stored row. -/
def stride (info : Info) : Nat := (info.width * (info.depth / 8) + 3) / 4 * 4

/-- The cells of a stored row. -/
def rowCells (info : Info) (palette : List UInt32) (row : List UInt8) :
    Except Error (List UInt32) :=
  if info.depth = 8 then
    let colors := palette.toArray
    (row.take info.width).mapM fun index =>
      match colors[index.toNat]? with
      | some cell => .ok cell
      | none => .error (.invalid "Palette index out of range")
  else .ok ((blocks (info.depth / 8) info.width row).map cellOf)

/-- Reads stored rows onto those so far, the last one first. -/
def readRows (info : Info) : (count : Nat) → (done : List (List UInt32)) →
    DecoderM (List (List UInt32))
  | 0, done => pure done
  | count + 1, done => do
    let bytes ← Reading.onStream (Stream.readExact (stride info))
    match rowCells info (← Reading.soFar).palette bytes with
    | .error e => throw e
    | .ok cells => readRows info count (cells :: done)

def decode : DecoderM Image := do
  decodeHeaders
  match (← Reading.soFar).info with
  | none => throw (.invalid "Headers not decoded")
  | some info => do
    Reading.onStream (Stream.setPosition info.dataOffset)
    let needed := Count.clamp (stride info * info.height)
    let remaining := (← get).stream.remaining
    if remaining < needed then throw (.io (.notEnough needed remaining))
    let rows ← readRows info info.height []
    let rows := if info.bottomUp then rows else rows.reverse
    match Image.ofPixels? info.width info.height rows.flatten with
    | none => throw (.invalid "Row outside the image")
    | some image => return image

end PackageAssets.Bmp
