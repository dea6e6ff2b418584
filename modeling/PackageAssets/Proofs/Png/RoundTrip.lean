import PackageAssets.Proofs.Deflate.Stored
import PackageAssets.Proofs.Image.Exchange
import PackageAssets.Proofs.Png.Filtering
import PackageAssets.Proofs.Png.Written

/-!
# Written and read back

What the writer makes of an image, whatever stands around it, is read as the
same image, with red and blue exchanged when the reader assumes the other
order of channels. The compressor is any whose stream is inflated to the data.
-/
namespace PackageAssets.Png

theorem cellOf_bytesOf (read written : ChannelOrder) (cell : UInt32) :
    cellOf read (bytesOf written cell) = read.seenIn written cell := by
  have same := Color.pack_unpack cell
  cases read <;> cases written
  · exact same
  · rfl
  · rfl
  · exact same

theorem length_bytesOf (order : ChannelOrder) (cell : UInt32) :
    (bytesOf order cell).length = 4 := by
  cases order <;> rfl

theorem length_flatMap_bytesOf (order : ChannelOrder) (row : List UInt32) :
    (row.flatMap (bytesOf order)).length = row.length * 4 := by
  rw [length_flatMap_of_sized (length_bytesOf order), Nat.mul_comm]

/-- A row read back, cell by cell. -/
theorem cellsOf_bytesOf (read written : ChannelOrder) (row : List UInt32) :
    cellsOf .rgba read (row.flatMap (bytesOf written)) = row.map (read.seenIn written) := by
  have sized : ∀ part ∈ row.map (bytesOf written), part.length = 4 := by
    intro part hpart
    obtain ⟨cell, -, rfl⟩ := List.mem_map.mp hpart
    exact length_bytesOf written cell
  have cut := blocks_flatten_append sized []
  rw [List.append_nil, List.length_map, ← List.flatMap_def] at cut
  rw [cellsOf, length_flatMap_bytesOf]
  change (blocks 4 (row.length * 4 / 4) (row.flatMap (bytesOf written))).map (cellOf read) = _
  rw [Nat.mul_div_cancel _ (by decide), cut, List.map_map]
  apply List.map_congr_left
  intro cell _
  exact cellOf_bytesOf read written cell

/-- The rows of an image as the writer stores them, none of them changed by its filter. -/
def storedRows (order : ChannelOrder) (image : Image) : List (Filter × List UInt8) :=
  image.rows.map fun row => (.none, row.flatMap (bytesOf order))

theorem dataOfImage_eq (order : ChannelOrder) (image : Image) (components : Nat)
    (above : List UInt8) :
    dataOfImage order image = (filteredRows components above (storedRows order image)).flatten := by
  rw [dataOfImage, storedRows]
  induction image.rows generalizing above with
  | nil => rfl
  | cons row rows ih =>
    rw [List.flatMap_cons, List.map_cons, filteredRows, List.flatten_cons, Filter.filtered_none,
      ← ih]

theorem cellsOfData_dataOfImage {image : Image} (wide : 0 < image.width) (tall : 0 < image.height)
    (counted : (4 * image.width + 1) * image.height < Count.bound) (read written : ChannelOrder) :
    cellsOfData (writtenHeader image) read (dataOfImage written image) =
      .ok (image.pixels.map (read.seenIn written)) := by
  have sized : ∀ r ∈ storedRows written image, r.2.length = image.width * 4 := by
    intro r hr
    obtain ⟨row, hrow, rfl⟩ := List.mem_map.mp hr
    rw [length_flatMap_bytesOf, Image.length_of_mem_rows hrow]
  have height : (storedRows written image).length = image.height := by
    rw [storedRows, List.length_map, Image.length_rows]
  rw [Nat.mul_comm 4] at counted
  have cells := cellsOfData_filteredRows (writtenHeader image) read wide tall counted
    height sized []
  rw [List.append_nil, ← dataOfImage_eq written image] at cells
  rw [cells]
  refine congrArg Except.ok ?_
  have made : ∀ row ∈ image.rows, (List.range image.width).map
      (pixelAt .rgba read (row.flatMap (bytesOf written))) = row.map (read.seenIn written) := by
    intro row hrow
    rw [← cellsOf_bytesOf]
    refine (cellsOf_eq .rgba read ?_).symm
    rw [length_flatMap_bytesOf, Image.length_of_mem_rows hrow]
    rfl
  rw [← image.flatten_rows, List.map_flatten, List.flatMap_def, storedRows, List.map_map]
  exact congrArg List.flatten (List.map_congr_left made)

theorem imageOf_written {inflate : Inflater} {image : Image} (wide : 0 < image.width)
    (tall : 0 < image.height)
    (counted : (4 * image.width + 1) * image.height < Count.bound) {written : ChannelOrder}
    {w : Walk} (header : w.header = some (writtenHeader image))
    (inflates : inflate w.options.confirmChecksums w.compressed =
      .ok (dataOfImage written image)) :
    imageOf inflate w = .ok (image.mapCells (w.options.order.seenIn written)) := by
  have cells := cellsOfData_dataOfImage wide tall counted w.options.order written
  have whole : (image.pixels.map (w.options.order.seenIn written)).length =
      image.width * image.height := (List.length_map _).trans image.length_pixels
  rw [imageOf, header]
  dsimp only
  rw [inflates]
  dsimp only
  rw [cells]
  dsimp only [writtenHeader]
  rw [Image.ofPixels?, dif_pos whole]
  rfl

theorem decode_of_decodeHeaders {inflate : Inflater} {r after : Decoder} {image : Image}
    (read : decodeHeaders r = .ok () after) (made : imageOf inflate after.found = .ok image) :
    decode inflate r = .ok image after := by
  rw [decode, bind_of_ok read, bind_of_ok (Reading.soFar_eq_ok after), made]
  rfl

/--
An image that is written is read back, wherever its file stands and whatever the other options
are, with the colours of every pixel as the two orders of channels have it.
-/
theorem decode_encodeWith {compress : Compressor} {inflate : Inflater} {image : Image}
    {written : EncoderOptions} {read : DecoderOptions} (wide : 0 < image.width)
    (tall : 0 < image.height)
    (narrow : image.width < 2 ^ 32) (low : image.height < 2 ^ 32)
    (within : image.width ≤ read.maxWidth ∧ image.height ≤ read.maxHeight)
    (counted : (4 * image.width + 1) * image.height < Count.bound)
    (inflates : inflate read.confirmChecksums
      (compress written.level (dataOfImage written.order image)) =
        .ok (dataOfImage written.order image))
    (filled : compress written.level (dataOfImage written.order image) ≠ [])
    (small : (compress written.level (dataOfImage written.order image)).length < 2 ^ 32) :
    ∃ png, encodeToBytesWith compress image written = .ok png ∧
      ∀ before after : List UInt8, (before ++ png ++ after).length < Count.bound →
        ∃ decoded final, decode inflate (Decoder.start
            ((Stream.ofBytes (before ++ png ++ after)).seek before.length) read) =
              .ok decoded final ∧
          decoded.width = image.width ∧ decoded.height = image.height ∧
          ∀ x y, decoded.get? x y = (image.get? x y).map (read.order.seenIn written.order) := by
  have room : ([] ++ writtenBytes image _ small).length ≤ Source.longestVector := by
    rw [List.nil_append, length_writtenBytes, Source.longestVector]
    omega
  obtain ⟨sink, hencode, happended⟩ :=
    encodeWith_appends compress image written wide tall narrow low
    small Stream.appended_empty room
  refine ⟨writtenBytes image _ small, ?_, ?_⟩
  · rw [encodeToBytesWith, hencode]
    exact congrArg Except.ok happended.holds
  intro before after counted'
  have sound := (Stream.sound_ofBytes counted').seek before.length
  have admitted : (writtenHeader image).Admitted read := ⟨wide, narrow, tall, low, within, rfl⟩
  have known : ((Stream.ofBytes (before ++ writtenBytes image _ small ++ after)).seek
      before.length).ahead = signature ++
        ((plainChunks (writtenHeader image) _ small).flatMap StoredChunk.bytes ++ after) := by
    rw [Stream.ahead_seek, Stream.visible_ofBytes, List.append_assoc, List.drop_left,
      writtenBytes, List.append_assoc]
  obtain ⟨final, hread, options, header, compressed⟩ := decodeHeaders_wellFormed sound known
    (wellFormed_plainChunks admitted small filled after)
  rw [dataOf_plainChunks] at compressed
  rw [← options, ← compressed] at inflates
  have made := imageOf_written wide tall counted header inflates
  refine ⟨_, final, decode_of_decodeHeaders hread made, rfl, rfl, ?_⟩
  rw [options]
  exact Image.get?_mapCells _ image

/-- Two pixels, stored without compression, read in the other order of channels. -/
theorem decode_encodeWith_two_pixels :
    let image : Image := ⟨2, 1, [0x44332211, 0xFF0000FE], rfl⟩
    ∃ png, encodeToBytesWith .storing image { order := .bgra } = .ok png ∧
      ∀ before after : List UInt8, (before ++ png ++ after).length < Count.bound →
        ∃ decoded final, decode .zlib (Decoder.start
            ((Stream.ofBytes (before ++ png ++ after)).seek before.length) { order := .rgba }) =
              .ok decoded final ∧
          decoded.width = 2 ∧ decoded.height = 1 ∧
          ∀ x y, decoded.get? x y = (image.get? x y).map (ChannelOrder.rgba.seenIn .bgra) :=
  decode_encodeWith (by decide) (by decide) (by decide) (by decide) (by decide) (by decide)
    (Zlib.inflate_store _ _) (by decide) (by decide)

example : ChannelOrder.rgba.seenIn .bgra 0x44332211 = 0x44112233 := by decide

end PackageAssets.Png
