import PackageAssets.Command.Console

/-!
# Converting images

An image of any known format is written as PNG. The ending of the output is
looked at first, and the whole image is decoded and encoded before the output
is opened, so a failure until then leaves every file as it was. The output
may be the input.
-/
namespace PackageAssets.Command

/-- Refuses an output whose ending asks for a format that cannot be written. -/
def checkOutput (path : String) : CommandM Unit :=
  match (Path.extension? path).bind ImageFormat.ofExtension? with
  | some format => if format.hasEncoder then pure () else throw (.image (.noEncoder format))
  | none => pure ()

/-- Converts a file and yields the number of bytes written. -/
def convertFileWith (inflate : Png.Inflater) (compress : Png.Compressor) (input output : String)
    (decoder : DecoderOptions) (encoder : EncoderOptions) : CommandM Nat := do
  checkOutput output
  let opened ← openFile input .read
  let (format, image) ←
    noted .image (ImageFormat.decodeAny inflate (Stream.onSource opened.source) decoder)
  note .info .conversion
    s!"Decoded {input} as {format.name}, {image.width}x{image.height}"
  let bytes ← noted .image (ImageFormat.png.encodeWith compress image encoder)
  let sink ← openFile output .create
  onOpened sink (Stream.writeBytes bytes)
  note .debug .conversion s!"Wrote {bytes.length} bytes to {output}"
  return bytes.length

def convertFile : (input output : String) → DecoderOptions → EncoderOptions → CommandM Nat :=
  convertFileWith .zlib .storing

end PackageAssets.Command
