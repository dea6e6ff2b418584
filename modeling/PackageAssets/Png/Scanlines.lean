import PackageAssets.Bytes.Blocks
import PackageAssets.Bytes.Count
import PackageAssets.Image.Basic
import PackageAssets.Png.Error
import PackageAssets.Png.Filter
import PackageAssets.Png.Format

/-!
# Scanlines

Inflated image data is a row of bytes for each row of the image, the number of
its filter in front. Rows are reconstructed in order, each above the next, and
their bytes are taken together to pixels.
-/
namespace PackageAssets.Png

/-- The bytes of a pixel in the file, as a cell. -/
def cellOf (order : ChannelOrder) (pixel : List UInt8) : UInt32 :=
  match pixel with
  | [a, b, c] =>
    let (red, green, blue) := order.toRgb a b c
    (Color.solid red green blue).pack
  | [a, b, c, alpha] =>
    let (red, green, blue) := order.toRgb a b c
    (Color.mk red green blue alpha).pack
  | _ => 0

/-- The cells in a row of bytes; bytes that fill no pixel are left out. -/
def cellsOf (color : ColorType) (order : ChannelOrder) (row : List UInt8) : List UInt32 :=
  (blocks color.components (row.length / color.components) row).map (cellOf order)

/-- The bytes of a cell as the writer stores it. -/
def bytesOf (order : ChannelOrder) (cell : UInt32) : List UInt8 :=
  let color := Color.unpack cell
  order.ofRgb color.red color.green color.blue ++ [color.alpha]

/-- The sizes of a stored row and of all rows, unless one of them is no count. -/
def dataSize? (header : Header) : Option (Nat × Nat) := do
  let row ← Count.mul? header.width header.color.components
  let stored ← Count.add? row 1
  let all ← Count.mul? stored header.height
  return (stored, all)

/--
Reconstructs rows below `above` and collects them in reverse. `current` is the
row that is overwritten next.
-/
def reconstructRows (components : Nat) :
    (above current : List UInt8) → (rows done : List (List UInt8)) →
      Except Error (List (List UInt8))
  | _, _, [], done => .ok done.reverse
  | above, current, row :: rest, done =>
    let number := row.headD 0
    match Filter.ofNumber? number with
    | none => .error (.unknownFilter number)
    | some f =>
      let made := f.apply components above row.tail current
      reconstructRows components made above rest (made :: done)

/-- The cells in inflated image data. -/
def cellsOfData (header : Header) (order : ChannelOrder) (data : List UInt8) :
    Except Error (List UInt32) :=
  match dataSize? header with
  | none => .error (.largeDimensions header.width header.height)
  | some (stored, all) =>
    let found := data.length
    if found < all then .error (.shortImageData all found)
    else
      let zeros := List.replicate (stored - 1) 0
      match reconstructRows header.color.components zeros zeros
          (blocks stored header.height data) [] with
      | .error e => .error e
      | .ok rows => .ok (rows.flatMap (cellsOf header.color order))

/-- The image data of an image, every row with the filter that changes nothing. -/
def dataOfImage (order : ChannelOrder) (image : Image) : List UInt8 :=
  image.rows.flatMap fun row => Filter.none.number :: row.flatMap (bytesOf order)

end PackageAssets.Png
