import PackageAssets.Checksum.Crc32
import PackageAssets.Deflate.Zlib
import PackageAssets.Image.Options
import PackageAssets.Png.Scanlines
import PackageAssets.Stream.Reading

/-!
# Reading PNG

A reader walks the chunks of its stream once, up to the last chunk or the end,
keeps the header and collects the compressed data. A failed walk leaves the
reader where it stopped, with what it had found; a finished one is not
repeated. Any inflater will do for the collected data.
-/
namespace PackageAssets.Png

/-- A chunk whose checksum was looked at; `data` is a view of its payload. -/
structure Chunk where
  name : List UInt8
  length : Nat
  data : Stream
  checksum : UInt32

/-- What a walk has found so far. -/
structure Walk where
  options : DecoderOptions
  header : Option Header
  /-- The last chunk was seen. -/
  terminated : Bool
  /-- The walk was finished. -/
  complete : Bool
  compressed : List UInt8
  deriving DecidableEq

abbrev Decoder := Reading Walk

abbrev DecoderM := ReadingM Error Walk

namespace Decoder

def start (stream : Stream) (options : DecoderOptions) : Decoder :=
  Reading.start stream ⟨options, none, false, false, []⟩

/-- The size of the image, once its header was read. -/
def dimensions (d : Decoder) : Option (Nat × Nat) :=
  d.found.header.map fun h => (h.width, h.height)

end Decoder

/-- Whether a view of `stream` starts with the signature. -/
def probe (stream : Stream) : Bool :=
  match stream.wholeSlice with
  | .error _ => false
  | .ok view =>
    match Stream.readExact signature.length view with
    | .ok found _ => found = signature
    | .error _ _ => false

def readSignature : DecoderM Unit := do
  let found ← Reading.onStream (Stream.readBytes signature.length)
  if found ≠ signature.take found.length then throw .badSignature
  if found.length ≠ signature.length then
    throw (.io (.notEnough signature.length found.length))

/-- Checksums are taken over blocks of this many bytes. -/
def checksumBlock : Nat := 4096

/-- Feeds at most `rounds` blocks of a stream to a running checksum. -/
def checksumBlocks : (rounds : Nat) → UInt32 → StreamM UInt32
  | 0, crc => pure crc
  | rounds + 1, crc => do
    let block ← Stream.readBytes checksumBlock
    if block = [] then return crc
    checksumBlocks rounds (Crc32.update crc block)

/-- The checksum of a chunk's name and payload. The position of the payload is put back. -/
def checksum (name : List UInt8) : StreamM UInt32 := fun s =>
  Stream.keepPosition (do
    let crc ← checksumBlocks (s.remaining + 1) (Crc32.update Crc32.initial name)
    return ~~~crc) s

def readChunk : DecoderM Chunk := do
  let length ← Reading.onStream (Stream.readNat .big 4)
  let name ← Reading.onStream (Stream.readExact 4)
  let data ← Reading.onStream (Stream.readStream length)
  let stored := UInt32.ofNat (← Reading.onStream (Stream.readNat .big 4))
  if (← Reading.soFar).options.confirmChecksums then
    match checksum name data with
    | .error e _ => throw (.io e)
    | .ok found _ => if stored ≠ found then throw (.badChecksum name stored found)
  Reading.note .trace .pngReader s!"Chunk {Text.ofBytes name} of {length} bytes"
  return ⟨name, length, data, stored⟩

/-- A field of the header chunk. -/
def headerField (width : Nat) : StateT Stream (Except Error) Nat := fun s =>
  match Stream.readNat .big width s with
  | .ok n after => .ok (n, after)
  | .error e _ => .error (.io e)

/-- The header in a payload of the right length. -/
def parseHeader (options : DecoderOptions) : StateT Stream (Except Error) Header := do
  let width ← headerField 4
  let height ← headerField 4
  if width = 0 ∨ height = 0 then throw .zeroDimensions
  if options.refuses width height then throw (.largeDimensions width height)
  let depth ← headerField 1
  if depth ≠ supportedDepth then throw (.unsupportedDepth depth)
  let code ← headerField 1
  match ColorType.ofCode? code with
  | none => throw (.unsupportedColor code)
  | some color => do
    let compression ← headerField 1
    if compression ≠ 0 then throw (.unsupportedMethod "compression" compression)
    let filtering ← headerField 1
    if filtering ≠ 0 then throw (.unsupportedMethod "filter" filtering)
    let interlacing ← headerField 1
    if interlacing ≠ 0 then throw (.unsupportedMethod "interlace" interlacing)
    return ⟨width, height, depth, color⟩

def takeHeader (chunk : Chunk) : DecoderM Unit := do
  let w ← Reading.soFar
  if w.header.isSome then throw (.chunkOrder "Multiple IHDR, corrupt PNG")
  if chunk.length ≠ headerSize then throw (.badHeaderLength chunk.length)
  match parseHeader w.options chunk.data with
  | .error e => throw e
  | .ok (header, _) => do
    Reading.note .info .pngHeader s!"Width: {header.width}"
    Reading.note .info .pngHeader s!"Height: {header.height}"
    Reading.note .info .pngHeader s!"Color type: {header.color.name}"
    Reading.note .info .pngHeader s!"Depth: {header.depth}"
    Reading.modifyFound fun w => { w with header := some header }

def takeData (chunk : Chunk) : DecoderM Unit := do
  if (← Reading.soFar).header.isNone then throw (.chunkOrder "IDAT chunk before IHDR")
  match Stream.readRemaining chunk.data with
  | .error e _ => throw (.io e)
  | .ok payload _ =>
    Reading.modifyFound fun w => { w with compressed := w.compressed ++ payload }

def skipChunk (chunk : Chunk) : DecoderM Unit := do
  let strict := (← Reading.soFar).options.strict
  if ChunkKind.ofName chunk.name = .unknown ∧ isCritical chunk.name ∧ strict then
    throw (.unknownCriticalChunk chunk.name)
  let name := Text.ofBytes chunk.name
  let crc := Hex.upper 8 chunk.checksum.toNat
  Reading.note .trace .pngReader s!"Skipping chunk {name} ({chunk.length} bytes, crc {crc})"

/-- Walks at most `rounds` chunks, up to the last one or the end of the stream. -/
def walk : (rounds : Nat) → DecoderM Unit
  | 0 => pure ()
  | rounds + 1 => do
    if (← get).stream.atEnd then return
    let chunk ← readChunk
    match ChunkKind.ofName chunk.name with
    | .header => do
      takeHeader chunk
      walk rounds
    | .data => do
      takeData chunk
      walk rounds
    | .terminator => Reading.modifyFound fun w => { w with terminated := true }
    | .palette | .unknown => do
      skipChunk chunk
      walk rounds

/-- Reads the chunks, unless that was done before. -/
def decodeHeaders : DecoderM Unit := do
  if (← Reading.soFar).complete then return
  readSignature
  walk ((← get).stream.remaining + 1)
  let w ← Reading.soFar
  if w.header.isNone then throw .missingHeader
  if w.compressed = [] then throw .noImageData
  if ¬w.terminated then
    if w.options.strict then throw .missingTerminator
    Reading.note .warn .pngReader "No IEND chunk, the png may be truncated"
  Reading.modifyFound fun w => { w with complete := true }

/-- The data in a zlib stream, or why there is none. The checksum is looked at only on request. -/
abbrev Inflater := (confirm : Bool) → List UInt8 → Except Deflate.InflateError (List UInt8)

def Inflater.zlib : Inflater := Zlib.inflate

/-- The image in the collected data. -/
def imageOf (inflate : Inflater) (w : Walk) : Except Error Image :=
  match w.header with
  | none => .error .missingHeader
  | some header =>
    match inflate w.options.confirmChecksums w.compressed with
    | .error cause => .error (.inflate cause)
    | .ok data =>
      match cellsOfData header w.options.order data with
      | .error e => .error e
      | .ok cells =>
        match Image.ofPixels? header.width header.height cells with
        | none => .error (.shortImageData (Count.clamp (header.width * header.height)) 0)
        | some image => .ok image

def decode (inflate : Inflater) : DecoderM Image := do
  decodeHeaders
  match imageOf inflate (← Reading.soFar) with
  | .error e => throw e
  | .ok image => return image

end PackageAssets.Png
