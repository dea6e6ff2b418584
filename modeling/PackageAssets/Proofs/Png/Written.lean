import PackageAssets.Png.Encoder
import PackageAssets.Proofs.Png.Grammar
import PackageAssets.Proofs.Stream.Sink

/-!
# What the writer writes

A chunk is written as the bytes of a sealed chunk, and an image as the
signature and three of them, behind whatever the sink held before.
-/
namespace PackageAssets.Png

/-- The checksum a writer runs up over the name and the payload. -/
theorem running_checksum (name payload : List UInt8) :
    ~~~Crc32.update (Crc32.update Crc32.initial name) payload =
      Crc32.ofBytes (name ++ payload) := by
  rw [Crc32.ofBytes, Crc32.update_append]

theorem emits_writeChunk (name : List UInt8) {payload : List UInt8} (size : name.length = 4)
    (small : payload.length < 2 ^ 32) :
    Stream.Emits (writeChunk name payload) (StoredChunk.sealed name payload size small).bytes := by
  have stored : Stream.Emits (Stream.writeNat .big 4
      (~~~Crc32.update (Crc32.update Crc32.initial name) payload).toNat)
      (ByteOrder.big.write 4 (Crc32.ofBytes (name ++ payload)).toNat) := by
    rw [running_checksum]
    exact Stream.emits_writeNat .big (UInt32.toNat_lt _)
  exact (Stream.emits_writeNat .big small).seq
    ((Stream.emits_writeBytes name).seq ((Stream.emits_writeBytes payload).seq stored))

/-- The header of an image as it is written. -/
def writtenHeader (image : Image) : Header := ⟨image.width, image.height, supportedDepth, .rgba⟩

theorem payload_writtenHeader (image : Image) :
    (writtenHeader image).payload = headerPayload image.width image.height := by
  simp only [headerPayload, List.append_assoc]
  rfl

/-- The file of an image. -/
def writtenBytes (image : Image) (stream : List UInt8) (small : stream.length < 2 ^ 32) :
    List UInt8 :=
  signature ++ (plainChunks (writtenHeader image) stream small).flatMap StoredChunk.bytes

theorem length_writtenBytes (image : Image) (stream : List UInt8) (small : stream.length < 2 ^ 32) :
    (writtenBytes image stream small).length = stream.length + 57 := by
  simp only [writtenBytes, plainChunks, List.flatMap_cons, List.flatMap_nil, List.length_append,
    StoredChunk.length_bytes, StoredChunk.sealed, Header.length_payload, List.length_nil]
  change 8 + _ = _
  omega

theorem onSink_of_ok {α : Type} {step : StreamM α} {s t : Stream} {a : α}
    (done : step s = .ok a t) :
    onSink step s = .ok a t := by
  rw [onSink, done]

theorem onSink_of_error {α : Type} {step : StreamM α} {s t : Stream} {e : IoError}
    (failed : step s = .error e t) : onSink step s = .error (.io e) t := by
  rw [onSink, failed]

theorem onSink_bind {α β : Type} (step : StreamM α) (next : α → StreamM β) :
    onSink (step >>= next) = onSink step >>= fun a => onSink (next a) := by
  funext s
  cases result : step s with
  | ok a t =>
    rw [bind_of_ok (onSink_of_ok result), onSink, bind_of_ok result]
    rfl
  | error e t => rw [bind_of_error (onSink_of_error result), onSink, bind_of_error result]

/-- The writes of an image whose compressed data is `stream`. -/
def writeFile (image : Image) (stream : List UInt8) : StreamM Unit := do
  Stream.writeBytes signature
  writeChunk Name.header (headerPayload image.width image.height)
  writeChunk Name.data stream
  writeChunk Name.terminator []

theorem emits_writeFile (image : Image) {stream : List UInt8} (small : stream.length < 2 ^ 32) :
    Stream.Emits (writeFile image stream) (writtenBytes image stream small) := by
  have size : (writtenHeader image).payload.length < 2 ^ 32 := by
    rw [Header.length_payload]
    decide
  have last := emits_writeChunk Name.terminator rfl (show [].length < 2 ^ 32 by decide)
  have written := (Stream.emits_writeBytes signature).seq
    ((emits_writeChunk Name.header rfl size).seq
      ((emits_writeChunk Name.data rfl small).seq last))
  have whole : writtenBytes image stream small = signature ++
      ((StoredChunk.sealed Name.header (writtenHeader image).payload rfl size).bytes ++
        ((StoredChunk.sealed Name.data stream rfl small).bytes ++
          (StoredChunk.sealed Name.terminator [] rfl (by decide)).bytes)) := by
    rw [writtenBytes, plainChunks, List.flatMap_cons, List.flatMap_cons, List.flatMap_cons,
      List.flatMap_nil, List.append_nil]
  rw [whole, writeFile, ← payload_writtenHeader]
  exact written

theorem small_of_writeChunk {name payload : List UInt8} {s t : Stream}
    (written : writeChunk name payload s = .ok () t) : payload.length < 2 ^ 32 := by
  obtain ⟨_, _, size, -⟩ := bind_eq_ok_iff.mp written
  exact Stream.lt_of_writeNat size

theorem small_of_writeFile {image : Image} {stream : List UInt8} {s t : Stream}
    (written : writeFile image stream s = .ok () t) : stream.length < 2 ^ 32 := by
  obtain ⟨_, _, -, written⟩ := bind_eq_ok_iff.mp written
  obtain ⟨_, _, -, written⟩ := bind_eq_ok_iff.mp written
  obtain ⟨_, _, data, -⟩ := bind_eq_ok_iff.mp written
  exact small_of_writeChunk data

theorem counting_eq (step : StreamM Unit) (s : Stream) :
    Stream.counting .io step s =
      (onSink step >>= fun _ => do return (← get).position - s.position : EncoderM Nat) s := by
  rw [Stream.counting]
  cases result : step s with
  | ok a t =>
    rw [bind_of_ok (onSink_of_ok result), bind_of_ok (get_eq_ok t)]
    rfl
  | error e t => rw [bind_of_error (onSink_of_error result)]

theorem encodeWith_eq (compress : Compressor) {image : Image} (options : EncoderOptions)
    (wide : 0 < image.width) (tall : 0 < image.height) (narrow : image.width < 2 ^ 32)
    (low : image.height < 2 ^ 32) :
    encodeWith compress image options = Stream.counting .io
      (writeFile image (compress options.level (dataOfImage options.order image))) := by
  funext s
  rw [counting_eq, encodeWith]
  dsimp only
  rw [if_neg (by omega), if_neg (by omega), bind_of_ok (get_eq_ok s)]
  simp only [writeFile, onSink_bind, bind_assoc]

/-- An image goes behind what the sink holds, if there is room for it. -/
theorem encodeWith_appends (compress : Compressor) (image : Image) (options : EncoderOptions)
    (wide : 0 < image.width) (tall : 0 < image.height) (narrow : image.width < 2 ^ 32)
    (low : image.height < 2 ^ 32)
    (small : (compress options.level (dataOfImage options.order image)).length < 2 ^ 32)
    {s : Stream} {content : List UInt8} (h : s.Appended content)
    (fits : (content ++ writtenBytes image _ small).length ≤ Source.longestVector) :
    ∃ t, encodeWith compress image options s = .ok (writtenBytes image _ small).length t ∧
      t.Appended (content ++ writtenBytes image _ small) := by
  rw [List.length_append] at fits
  obtain ⟨t, written, appended⟩ := h.succeeds (emits_writeFile image small) fits
  refine ⟨t, ?_, appended⟩
  rw [encodeWith_eq compress options wide tall narrow low, Stream.counting, written]
  dsimp only
  rw [appended.atEnd, h.atEnd, List.length_append, Nat.add_sub_cancel_left]

/-- What was written is the file of the image, and its numbers fit. -/
theorem encodeToBytesWith_eq_ok {compress : Compressor} {image : Image} {options : EncoderOptions}
    {bytes : List UInt8} (written : encodeToBytesWith compress image options = .ok bytes) :
    (0 < image.width ∧ 0 < image.height ∧ image.width < 2 ^ 32 ∧ image.height < 2 ^ 32) ∧
      ∃ small, bytes =
        writtenBytes image (compress options.level (dataOfImage options.order image)) small := by
  rw [encodeToBytesWith] at written
  cases result : encodeWith compress image options .empty with
  | error e s =>
    rw [result] at written
    cases written
  | ok n sink =>
    rw [result] at written
    cases written
    have checked := result
    rw [encodeWith] at checked
    dsimp only at checked
    by_cases empty : image.width = 0 ∨ image.height = 0
    · rw [if_pos empty] at checked
      cases checked
    rw [if_neg empty] at checked
    by_cases large : 0xFFFFFFFF < image.width ∨ 0xFFFFFFFF < image.height
    · rw [if_pos large] at checked
      cases checked
    obtain ⟨wide, tall, narrow, low⟩ : 0 < image.width ∧ 0 < image.height ∧
        image.width < 2 ^ 32 ∧ image.height < 2 ^ 32 := by omega
    rw [encodeWith_eq compress options wide tall narrow low, Stream.counting] at result
    cases steps : writeFile image (compress options.level (dataOfImage options.order image))
        .empty with
    | error e t =>
      rw [steps] at result
      cases result
    | ok a t =>
      rw [steps] at result
      cases result
      have small := small_of_writeFile steps
      have appended := Stream.appended_empty.of_ok (emits_writeFile image small) steps
      exact ⟨⟨wide, tall, narrow, low⟩, small, appended.holds⟩

end PackageAssets.Png
