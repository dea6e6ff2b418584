import PackageAssets.Proofs.Format.Agreement
import PackageAssets.Proofs.Png.Copied
import PackageAssets.Proofs.Png.RoundTrip

/-!
# A written file read again

A file of an image whose rows fit in memory is read again. Read in the order of
channels it was written in, in memory or on disk, it is found to be PNG and to
hold the image it was written from.
-/
namespace PackageAssets

theorem ChannelOrder.seenIn_self (order : ChannelOrder) (cell : UInt32) :
    order.seenIn order cell = cell := if_pos rfl

theorem Image.mapCells_of_id {f : UInt32 → UInt32} (same : ∀ cell, f cell = cell) (m : Image) :
    m.mapCells f = m := by
  obtain ⟨width, height, pixels, size⟩ := m
  simp only [mapCells, List.map_congr_left fun cell _ => same cell, List.map_id']

namespace Png

theorem length_dataOfImage (order : ChannelOrder) (image : Image) :
    (dataOfImage order image).length = (4 * image.width + 1) * image.height := by
  have sized : ∀ row ∈ image.rows.map fun row => Filter.none.number :: row.flatMap (bytesOf order),
      row.length = 4 * image.width + 1 := by
    intro stored member
    obtain ⟨row, inside, rfl⟩ := List.mem_map.mp member
    rw [List.length_cons, length_flatMap_bytesOf, Image.length_of_mem_rows inside, Nat.mul_comm]
  rw [dataOfImage, List.flatMap_def, length_flatten_of_sized sized, List.length_map,
    Image.length_rows]

/-- What is decoded as PNG from the copy of a file in memory is found to be PNG in the file. -/
theorem decodeAny_png_copied {inflate : Inflater} {s t : Stream} (copied : Stream.Copied s t)
    {image : Image} {options : DecoderOptions} (recognised : probe t = true)
    (decoded : outcomeOf (ImageFormat.decode inflate .png t options []) = .ok image)
    (notes : List Note) :
    outcomeOf (ImageFormat.decodeAny inflate s options notes) = .ok (.png, image) := by
  have known : ImageFormat.recognisedAs s .png = true := (probe_follows copied).trans recognised
  have guessed : (ImageFormat.guess s).1 = some .png := by
    rw [ImageFormat.guess, ImageFormat.firstOf_eq]
    exact List.find?_cons_of_pos known
  have run := decode_follows inflate (start_copies copied.whole options)
  have onFile : outcomeOf (ImageFormat.decode inflate .png s options
      (notes ++ (ImageFormat.guess s).2)) = .ok image := by
    rw [← decoded, ImageFormat.decode_eq, ImageFormat.decode_eq]
    dsimp only
    rw [outcomeOf_ofReading, outcomeOf_ofReading, run.outcomeOf_eq]
  obtain ⟨after, onFile⟩ := outcomeOf_eq_ok_iff.mp onFile
  rw [ImageFormat.decodeAny_eq, guessed]
  dsimp only
  rw [bind_of_ok onFile]
  rfl

section Written

variable {compress : Compressor} {image : Image} {written : EncoderOptions} {read : DecoderOptions}
  {bytes : List UInt8} (made : encodeToBytesWith compress image written = .ok bytes)

include made

theorem length_of_encodeToBytesWith : bytes.length < 2 ^ 32 + 57 := by
  obtain ⟨-, small, rfl⟩ := encodeToBytesWith_eq_ok made
  rw [length_writtenBytes]
  omega

variable {inflate : Inflater} (inflates : inflate read.confirmChecksums
    (compress written.level (dataOfImage written.order image)) =
      .ok (dataOfImage written.order image))
  (filled : compress written.level (dataOfImage written.order image) ≠ [])
  (inMemory : (dataOfImage written.order image).length ≤ Source.longestVector)
  (order : read.order = written.order)
  (within : image.width ≤ read.maxWidth ∧ image.height ≤ read.maxHeight)

include inflates filled inMemory order within

/-- What was written is read as the image it was written from. -/
theorem decode_written {s : Stream} (sound : s.Sound) (holds : s.ahead = bytes) :
    ∃ final, decode inflate (Decoder.start s read) = .ok image final := by
  obtain ⟨⟨wide, tall, narrow, low⟩, small, rfl⟩ := encodeToBytesWith_eq_ok made
  have counted : (4 * image.width + 1) * image.height < Count.bound := by
    rw [length_dataOfImage] at inMemory
    exact Nat.lt_of_le_of_lt inMemory (by decide)
  have admitted : (writtenHeader image).Admitted read := ⟨wide, narrow, tall, low, within, rfl⟩
  have known : s.ahead = signature ++
      ((plainChunks (writtenHeader image) _ small).flatMap StoredChunk.bytes ++ []) := by
    rw [holds, writtenBytes, List.append_nil]
  obtain ⟨final, headers, options, header, compressed⟩ := decodeHeaders_wellFormed sound known
    (wellFormed_plainChunks admitted small filled [])
  rw [dataOf_plainChunks] at compressed
  rw [← options, ← compressed] at inflates
  have found := imageOf_written wide tall counted header inflates
  have same : ∀ cell, final.found.options.order.seenIn written.order cell = cell := by
    rw [options, order]
    exact ChannelOrder.seenIn_self _
  rw [Image.mapCells_of_id same] at found
  exact ⟨final, decode_of_decodeHeaders headers found⟩

/-- A file is found to hold the image, like its copy in memory. -/
theorem decodeAny_written {furthest : Nat} (disk : 2 ^ 33 ≤ furthest) (writable : Bool)
    (notes : List Note) :
    outcomeOf (ImageFormat.decodeAny inflate (Stream.onSource (.ofFile bytes writable furthest))
      read notes) = .ok (.png, image) := by
  have short := length_of_encodeToBytesWith made
  have counted : bytes.length < Count.bound := Nat.lt_trans short (by decide)
  have sound : (Stream.ofBytes bytes).Sound := Stream.sound_ofBytes counted
  have view := Stream.sound_part sound (Nat.zero_le _) (Nat.le_refl _)
  have holds : ((Stream.ofBytes bytes).part 0 (Stream.ofBytes bytes).length).ahead = bytes := by
    rw [Stream.ahead_part 0 (Nat.le_refl _)]
    exact List.take_length
  obtain ⟨final, decoded⟩ := decode_written made inflates filled inMemory order within view holds
  obtain ⟨_, headers, -⟩ := (headed _ _).sized _ _ decoded
  refine decodeAny_png_copied (Stream.copied_ofFile writable (by omega) counted)
    (probe_of_decodeHeaders sound headers) ?_ notes
  rw [ImageFormat.decode_eq]
  exact (outcomeOf_ofReading _ _ _).trans
    (congrArg (Except.mapError ImageError.png) (outcomeOf_eq_ok_iff.mpr ⟨_, decoded⟩))

end Written

end Png

end PackageAssets
