import PackageAssets.Png.Decoder
import PackageAssets.Proofs.Stream.Ahead

/-!
# Chunks in bytes

`StoredChunk` is a chunk as it stands in a file, independently of any reader.
Bytes either start with a complete chunk or are cut short inside one; the
reader takes the chunk off in the first case and fails for want of bytes in
the second. A checksum that is asked for and wrong is the only other failure.
-/
namespace PackageAssets.Png

structure StoredChunk where
  name : List UInt8
  payload : List UInt8
  checksum : UInt32
  length_name : name.length = 4
  length_payload : payload.length < 2 ^ 32

namespace StoredChunk

/-- Length, name, payload and checksum. -/
def bytes (c : StoredChunk) : List UInt8 :=
  ByteOrder.big.write 4 c.payload.length ++
    (c.name ++ (c.payload ++ ByteOrder.big.write 4 c.checksum.toNat))

/-- The stored checksum is that of name and payload. -/
def Intact (c : StoredChunk) : Prop := c.checksum = Crc32.ofBytes (c.name ++ c.payload)

/-- A chunk with the checksum it should have. -/
def sealed (name payload : List UInt8) (length_name : name.length = 4)
    (length_payload : payload.length < 2 ^ 32) : StoredChunk :=
  ⟨name, payload, Crc32.ofBytes (name ++ payload), length_name, length_payload⟩

/-- Bytes that end before the chunk they begin does. -/
def Cut (bytes : List UInt8) : Prop :=
  bytes.length < 8 ∨ bytes.length < 12 + ByteOrder.big.read (bytes.take 4)

theorem length_bytes (c : StoredChunk) : c.bytes.length = c.payload.length + 12 := by
  simp only [bytes, List.length_append, ByteOrder.length_write, c.length_name]
  omega

/-- Bytes that are not cut start with a chunk. -/
theorem starts_or_cut (bytes : List UInt8) :
    (∃ (c : StoredChunk) (rest : List UInt8), bytes = c.bytes ++ rest) ∨ Cut bytes := by
  by_cases cut : Cut bytes
  · exact Or.inr cut
  have long : 8 ≤ bytes.length ∧ 12 + ByteOrder.big.read (bytes.take 4) ≤ bytes.length := by
    unfold Cut at cut
    omega
  obtain ⟨size, later, rfl, hsize⟩ := exists_split (l := bytes) (n := 4) (by omega)
  rw [List.take_left' hsize, List.length_append] at long
  have small := ByteOrder.read_lt .big size
  have same := ByteOrder.write_read .big size
  rw [hsize] at small same
  obtain ⟨name, later, rfl, hname⟩ := exists_split (l := later) (n := 4) (by omega)
  rw [List.length_append] at long
  obtain ⟨payload, later, rfl, hpayload⟩ :=
    exists_split (l := later) (n := ByteOrder.big.read size) (by omega)
  rw [List.length_append] at long
  obtain ⟨sum, rest, rfl, hsum⟩ := exists_split (l := later) (n := 4) (by omega)
  have sumSmall := ByteOrder.read_lt .big sum
  have sumSame := ByteOrder.write_read .big sum
  rw [hsum] at sumSmall sumSame
  have sumBack : (UInt32.ofNat (ByteOrder.big.read sum)).toNat = ByteOrder.big.read sum := by
    rw [UInt32.toNat_ofNat']
    exact Nat.mod_eq_of_lt sumSmall
  rw [← hpayload] at small same
  refine Or.inl ⟨⟨name, payload, UInt32.ofNat (ByteOrder.big.read sum), hname, small⟩, rest, ?_⟩
  simp only [StoredChunk.bytes, sumBack, sumSame, same, List.append_assoc]

end StoredChunk

theorem checksumBlocks_of_held {s : Stream} (held : s.Held) {rounds : Nat}
    (enough : s.ahead.length < rounds) (crc : UInt32) :
    checksumBlocks rounds crc s =
      .ok (Crc32.update crc s.ahead) (s.seek (s.position + s.ahead.length)) := by
  induction rounds generalizing s crc with
  | zero => omega
  | succ rounds ih =>
    have hread := Stream.readBytes_of_held held checksumBlock
    have hsplit := List.take_append_drop checksumBlock s.ahead
    have hlength : (s.ahead.take checksumBlock).length = min checksumBlock s.ahead.length :=
      List.length_take
    rw [checksumBlocks, bind_of_ok hread, ← hlength]
    by_cases empty : s.ahead.take checksumBlock = []
    · have nothing : s.ahead = [] := (List.take_eq_nil_iff.mp empty).resolve_left (by decide)
      rw [if_pos empty, empty, nothing]
      rfl
    · have past := held.past (hlength ▸ Nat.min_le_right checksumBlock s.ahead.length)
      have later := Stream.ahead_seek_append hsplit.symm
      have fewer : (s.ahead.drop checksumBlock).length < rounds := by
        have := List.length_pos_iff.mpr empty
        rw [List.length_drop]
        omega
      rw [if_neg empty, ih past (later ▸ fewer), later, ← Crc32.update_append, hsplit,
        Stream.seek_position, Stream.seek_seek, Nat.add_assoc, ← List.length_append, hsplit]

/-- The checksum of a view is that of its bytes; the blocks it is taken over do not show. -/
theorem checksum_of_held {s : Stream} (held : s.Held) (name : List UInt8) :
    checksum name s = .ok (Crc32.ofBytes (name ++ s.ahead)) s := by
  have size : s.ahead.length < s.remaining + 1 :=
    Nat.lt_succ_of_le (Nat.le_of_eq (Stream.length_ahead_of_within held.within))
  have hblocks := checksumBlocks_of_held held size (Crc32.update Crc32.initial name)
  rw [← Crc32.update_append] at hblocks
  rw [checksum, Stream.keepPosition, bind_of_ok hblocks]
  rfl

theorem checksum_eq {s : Stream} (h : s.Sound) (name : List UInt8) :
    checksum name s = .ok (Crc32.ofBytes (name ++ s.ahead)) s := checksum_of_held h.held name

/-- What is left to do with a chunk once all its bytes were read. -/
def confirmChunk (chunk : Chunk) : DecoderM Chunk := do
  if (← Reading.soFar).options.confirmChecksums then
    match checksum chunk.name chunk.data with
    | .error e _ => throw (.io e)
    | .ok found _ =>
      if chunk.checksum ≠ found then throw (.badChecksum chunk.name chunk.checksum found)
  Reading.note .trace .pngReader s!"Chunk {Text.ofBytes chunk.name} of {chunk.length} bytes"
  return chunk

/-- The stream behind a chunk that starts at the position. -/
def past (s : Stream) (c : StoredChunk) : Stream := s.seek (s.position + c.bytes.length)

theorem ahead_past {s : Stream} {c : StoredChunk} {rest : List UInt8}
    (known : s.ahead = c.bytes ++ rest) : (past s c).ahead = rest :=
  Stream.ahead_seek_append known

/-- The reader's view of a chunk that starts at the position. -/
def viewed (s : Stream) (c : StoredChunk) : Chunk :=
  ⟨c.name, c.payload.length,
    s.part (s.position + 8) (s.position + 8 + c.payload.length), c.checksum⟩

theorem readChunk_eq {r : Decoder} (h : r.stream.Sound) {c : StoredChunk} {rest : List UInt8}
    (known : r.stream.ahead = c.bytes ++ rest) :
    readChunk r = confirmChunk (viewed r.stream c) { r with stream := past r.stream c } ∧
      (viewed r.stream c).data.Sound ∧ (viewed r.stream c).data.ahead = c.payload := by
  have small := c.length_payload
  have sumSmall := c.checksum.toNat_lt
  have inside : r.stream.position + 8 + c.payload.length ≤ r.stream.length := by
    have := Stream.position_add_le_length h (n := 8 + c.payload.length) (by omega) (by
      rw [known, List.length_append, c.length_bytes]
      omega)
    omega
  rw [StoredChunk.bytes, List.append_assoc, List.append_assoc, List.append_assoc] at known
  have hlength := Stream.readNat_append h small known
  have afterLength := Stream.ahead_seek_write known
  have hname := Stream.readExact_append (h.seek _) afterLength
  have afterName := Stream.ahead_seek_append afterLength
  rw [c.length_name] at hname afterName
  simp only [Stream.seek_position, Stream.seek_seek, Nat.add_assoc, Nat.reduceAdd]
    at hname afterName
  have hdata := Stream.readStream_eq (h.seek (r.stream.position + 8)) inside
  have afterData := Stream.ahead_seek_append afterName
  simp only [Stream.seek_position, Stream.seek_seek] at hdata afterData
  have hsum := Stream.readNat_append (h.seek _) sumSmall afterData
  simp only [Stream.seek_position, Stream.seek_seek] at hsum
  have hpast : r.stream.seek (r.stream.position + 8 + c.payload.length + 4) = past r.stream c := by
    rw [past, c.length_bytes]
    congr 1
    omega
  have back : UInt32.ofNat c.checksum.toNat = c.checksum := UInt32.ofNat_toNat
  refine ⟨?_, Stream.sound_part h (Nat.le_add_right _ _) inside, ?_⟩
  · rw [readChunk, bind_of_ok (Reading.onStream_of_ok hlength),
      bind_of_ok (Reading.onStream_of_ok hname), bind_of_ok (Reading.onStream_of_ok hdata),
      bind_of_ok (Reading.onStream_of_ok hsum), hpast, back]
    rfl
  · rw [viewed, Stream.ahead_part _ inside, Nat.add_sub_cancel_left, ← Stream.ahead_seek, afterName,
      List.take_left]

/-- What the reader notes of a chunk it has read. -/
def chunkNote (chunk : Chunk) : Note :=
  ⟨.trace, .pngReader, s!"Chunk {Text.ofBytes chunk.name} of {chunk.length} bytes"⟩

theorem confirmChunk_intact {chunk : Chunk} (h : chunk.data.Sound) {r : Decoder}
    (intact : r.found.options.confirmChecksums = true →
      chunk.checksum = Crc32.ofBytes (chunk.name ++ chunk.data.ahead)) :
    confirmChunk chunk r = .ok chunk { r with notes := r.notes ++ [chunkNote chunk] } := by
  rw [confirmChunk, bind_of_ok (Reading.soFar_eq_ok r)]
  by_cases confirm : r.found.options.confirmChecksums = true
  · rw [if_pos confirm, checksum_eq h, ← intact confirm]
    simp only [ne_eq, not_true_eq_false, if_false]
    rfl
  · rw [if_neg confirm]
    rfl

theorem confirmChunk_corrupt {chunk : Chunk} (h : chunk.data.Sound) {r : Decoder}
    (confirm : r.found.options.confirmChecksums = true)
    (corrupt : chunk.checksum ≠ Crc32.ofBytes (chunk.name ++ chunk.data.ahead)) :
    confirmChunk chunk r = .error (.badChecksum chunk.name chunk.checksum
      (Crc32.ofBytes (chunk.name ++ chunk.data.ahead))) r := by
  rw [confirmChunk, bind_of_ok (Reading.soFar_eq_ok r), if_pos confirm, checksum_eq h]
  simp only [corrupt, ne_eq, not_false_eq_true, if_true]
  rfl

/-- A chunk that starts at the position is taken off, unless its checksum is asked for and wrong. -/
theorem readChunk_intact {r : Decoder} (h : r.stream.Sound) {c : StoredChunk} {rest : List UInt8}
    (known : r.stream.ahead = c.bytes ++ rest)
    (intact : r.found.options.confirmChecksums = true → c.Intact) :
    readChunk r = .ok (viewed r.stream c)
      ⟨past r.stream c, r.found, r.notes ++ [chunkNote (viewed r.stream c)]⟩ := by
  obtain ⟨hread, sound, payload⟩ := readChunk_eq h known
  rw [hread]
  apply confirmChunk_intact sound
  intro confirm
  rw [payload]
  exact intact confirm

theorem readChunk_corrupt {r : Decoder} (h : r.stream.Sound) {c : StoredChunk} {rest : List UInt8}
    (known : r.stream.ahead = c.bytes ++ rest)
    (confirm : r.found.options.confirmChecksums = true) (corrupt : ¬c.Intact) :
    readChunk r = .error (.badChecksum c.name c.checksum (Crc32.ofBytes (c.name ++ c.payload)))
      { r with stream := past r.stream c } := by
  obtain ⟨hread, sound, payload⟩ := readChunk_eq h known
  rw [hread, ← payload]
  refine confirmChunk_corrupt (r := { r with stream := past r.stream c }) sound confirm ?_
  rw [payload]
  exact corrupt

/-- A length and a name are there, but not the payload and the checksum they announce. -/
theorem readChunk_cut_payload {r : Decoder} (h : r.stream.Sound)
    (cut : StoredChunk.Cut r.stream.ahead) {name : List UInt8}
    (hlength : Stream.readNat .big 4 r.stream = .ok (ByteOrder.big.read (r.stream.ahead.take 4))
      (r.stream.seek (r.stream.position + 4)))
    (hname : Stream.readExact 4 (r.stream.seek (r.stream.position + 4)) =
      .ok name (r.stream.seek (r.stream.position + 8)))
    (eight : 8 ≤ r.stream.ahead.length) :
    ∃ expected found after, readChunk r = .error (.io (.notEnough expected found)) after := by
  unfold StoredChunk.Cut at cut
  generalize ByteOrder.big.read (r.stream.ahead.take 4) = length at hlength cut
  have remains : (r.stream.seek (r.stream.position + 8)).remaining =
      r.stream.ahead.length - 8 := by
    rw [← Stream.length_ahead (h.seek _), Stream.ahead_seek_add, List.length_drop]
  rw [readChunk, bind_of_ok (Reading.onStream_of_ok hlength),
    bind_of_ok (Reading.onStream_of_ok hname)]
  by_cases payload : length ≤ r.stream.ahead.length - 8
  · have inside : r.stream.position + 8 + length ≤ r.stream.length := by
      have := Stream.position_add_le_length h (n := 8 + length) (by omega) (by omega)
      omega
    have hdata := Stream.readStream_eq (h.seek (r.stream.position + 8)) inside
    have hsum := Stream.readNat_eq (h.seek (r.stream.position + 8 + length)) .big 4
    rw [Nat.add_assoc, Stream.ahead_seek_add, List.length_drop, if_neg (by omega),
      ← Nat.add_assoc] at hsum
    rw [bind_of_ok (Reading.onStream_of_ok hdata)]
    exact ⟨_, _, _, bind_of_error (Reading.onStream_of_error hsum)⟩
  · have less : (r.stream.seek (r.stream.position + 8)).remaining < length := by omega
    have short := Stream.readStream_short less
    exact ⟨_, _, _, bind_of_error (Reading.onStream_of_error short)⟩

/-- Bytes that end inside a chunk are too few for one of the reads. -/
theorem readChunk_cut {r : Decoder} (h : r.stream.Sound) (cut : StoredChunk.Cut r.stream.ahead) :
    ∃ expected found after, readChunk r = .error (.io (.notEnough expected found)) after := by
  have hlength := Stream.readNat_eq h .big 4
  by_cases four : 4 ≤ r.stream.ahead.length
  · rw [if_pos four] at hlength
    have hname := Stream.readExact_eq (h.seek (r.stream.position + 4)) 4
    rw [Stream.ahead_seek_add, List.length_drop] at hname
    by_cases eight : 8 ≤ r.stream.ahead.length
    · rw [if_pos (by omega), Stream.seek_position, Stream.seek_seek, Nat.add_assoc] at hname
      exact readChunk_cut_payload h cut hlength hname eight
    · rw [if_neg (by omega)] at hname
      rw [readChunk, bind_of_ok (Reading.onStream_of_ok hlength)]
      exact ⟨_, _, _, bind_of_error (Reading.onStream_of_error hname)⟩
  · rw [if_neg four] at hlength
    exact ⟨_, _, _, bind_of_error (Reading.onStream_of_error hlength)⟩

end PackageAssets.Png
