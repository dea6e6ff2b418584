import PackageAssets.Checksum.Crc32
import PackageAssets.Deflate.Zlib
import PackageAssets.Image.Options
import PackageAssets.Log.Note
import PackageAssets.Png.Scanlines
import PackageAssets.Stream.Write

/-!
# Writing PNG

Images are written with alpha, no filter and one data chunk, at the position
of the stream. The writes are done one after another, so that a stream too
short for the whole keeps the beginning. Any compressor will do; the usual one
stores the data as it is at every level.
-/
namespace PackageAssets.Png

abbrev EncoderM := EStateM Error Stream

/-- A write to the stream. -/
def onSink {α : Type} (step : StreamM α) : EncoderM α := fun s =>
  match step s with
  | .ok a after => .ok a after
  | .error e after => .error (.io e) after

/-- Length, name, payload and checksum. -/
def writeChunk (name payload : List UInt8) : StreamM Unit := do
  Stream.writeNat .big 4 payload.length
  Stream.writeBytes name
  Stream.writeBytes payload
  let crc := Crc32.update (Crc32.update Crc32.initial name) payload
  Stream.writeNat .big 4 (~~~crc).toNat

/-- The payload of the header chunk of an image. -/
def headerPayload (width height : Nat) : List UInt8 :=
  ByteOrder.big.write 4 width ++ ByteOrder.big.write 4 height ++
    [UInt8.ofNat supportedDepth, UInt8.ofNat ColorType.rgba.code, 0, Filter.none.number, 0]

/-- A zlib stream for each level and data. -/
abbrev Compressor := (level : Nat) → List UInt8 → List UInt8

def Compressor.storing : Compressor := fun _ => Zlib.store

/-- Writes an image and yields the number of bytes written. -/
def encodeWith (compress : Compressor) (image : Image) (options : EncoderOptions) :
    EncoderM Nat := do
  let width := image.width
  let height := image.height
  if width = 0 ∨ height = 0 then throw .zeroDimensions
  if 0xFFFFFFFF < width ∨ 0xFFFFFFFF < height then throw (.largeDimensions width height)
  let start := (← get).position
  onSink (Stream.writeBytes signature)
  onSink (writeChunk Name.header (headerPayload width height))
  onSink (writeChunk Name.data (compress options.level (dataOfImage options.order image)))
  onSink (writeChunk Name.terminator [])
  return (← get).position - start

def encode : Image → EncoderOptions → EncoderM Nat := encodeWith .storing

/-- The bytes of a PNG of an image. -/
def encodeToBytesWith (compress : Compressor) (image : Image) (options : EncoderOptions) :
    Except Error (List UInt8) :=
  match encodeWith compress image options .empty with
  | .error e _ => .error e
  | .ok _ sink => .ok sink.source.content

def encodeToBytes : Image → EncoderOptions → Except Error (List UInt8) :=
  encodeToBytesWith .storing

/-- What the writer notes about an image written in `size` bytes. -/
def encodedNote (image : Image) (size : Nat) : Note :=
  ⟨.debug, .pngWriter, s!"Encoded {image.width}x{image.height} png in {size} bytes"⟩

end PackageAssets.Png
