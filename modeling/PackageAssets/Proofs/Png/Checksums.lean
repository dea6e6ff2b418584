import PackageAssets.Proofs.Checksum.Serial
import PackageAssets.Proofs.Png.Written
import PackageAssets.Proofs.Stream.Storing

/-!
# Checksums of chunks

A reader takes the checksum of a chunk over blocks of its payload, a writer over the
name and then the payload. However the bytes are cut, what comes out is the CRC-32
that a shift register makes of their bits.
-/
namespace PackageAssets.Png

/-- The checksum as the shift register computes it. -/
def serialChecksum (bytes : List UInt8) : UInt32 := .ofBitVec (Crc32.serial bytes)

theorem ofBytes_eq_serialChecksum (bytes : List UInt8) :
    Crc32.ofBytes bytes = serialChecksum bytes :=
  UInt32.toBitVec_inj.mp (Crc32.toBitVec_ofBytes bytes)

/-- What is written of a chunk in front of its checksum. -/
def unsealed (name payload : List UInt8) : List UInt8 :=
  ByteOrder.big.write 4 payload.length ++ (name ++ payload)

theorem length_unsealed (name payload : List UInt8) :
    (unsealed name payload).length = 4 + name.length + payload.length := by
  rw [unsealed, List.length_append, List.length_append, ByteOrder.length_write, Nat.add_assoc]

theorem writes_writeChunk (name : List UInt8) {payload : List UInt8}
    (small : payload.length < 2 ^ 32) :
    Stream.Writes (writeChunk name payload) (unsealed name payload ++
      ByteOrder.big.write 4 (serialChecksum (name ++ payload)).toNat) := by
  have stored : Stream.Writes (Stream.writeNat .big 4
      (~~~Crc32.update (Crc32.update Crc32.initial name) payload).toNat)
      (ByteOrder.big.write 4 (serialChecksum (name ++ payload)).toNat) := by
    rw [running_checksum, ofBytes_eq_serialChecksum]
    exact Stream.writes_writeNat .big (UInt32.toNat_lt _)
  rw [unsealed, List.append_assoc, List.append_assoc]
  exact (Stream.writes_writeNat .big small).seq
    ((Stream.writes_writeBytes name).seq ((Stream.writes_writeBytes payload).seq stored))

/--
Fed in parts, cut anywhere, bytes have the checksum of the shift register. It is what a reader finds
for a name and a payload in any window, and what a writer stores behind them.
-/
theorem checksums_serial :
    (∀ parts : List (List UInt8),
      ~~~parts.foldl Crc32.update Crc32.initial = serialChecksum parts.flatten) ∧
    (∀ (s : Stream) (name : List UInt8), s.Held →
      checksum name s = .ok (serialChecksum (name ++ s.ahead)) s) ∧
    (∀ (s : Stream) (name payload : List UInt8), s.Editable →
      s.RoomFor (8 + name.length + payload.length) → payload.length < 2 ^ 32 →
      ∃ t, writeChunk name payload s = .ok () t) ∧
    ∀ (s t : Stream) (name payload : List UInt8), writeChunk name payload s = .ok () t →
      Source.bytesAt t.source.content (s.absolute + (4 + name.length + payload.length)) 4 =
        ByteOrder.big.write 4 (serialChecksum (name ++ payload)).toNat := by
  refine ⟨?_, ?_, ?_, ?_⟩
  · intro parts
    rw [Crc32.update_flatten, ← ofBytes_eq_serialChecksum]
    rfl
  · intro s name held
    rw [checksum_of_held held, ofBytes_eq_serialChecksum]
  · intro s name payload editable room small
    apply (writes_writeChunk name small).done editable
    rw [List.length_append, length_unsealed, ByteOrder.length_write]
    exact room.mono (by omega)
  · intro s t name payload written
    have stored := (writes_writeChunk name (small_of_writeChunk written)).stored written
    have found := stored.bytesAt_behind
    rwa [length_unsealed, ByteOrder.length_write] at found

/-- A file that was opened for writing, with the position behind its end. -/
def sampleFile : Stream := (Stream.onSource (.ofFile [1, 2, 3] true 4096)).seek 5

theorem checksums_serial_sampleFile :
    (~~~[[115, 65], [], [109, 112, 7]].foldl Crc32.update Crc32.initial =
      serialChecksum [115, 65, 109, 112, 7]) ∧
    checksum [115, 65, 109, 112] (Stream.onSource (.ofFile [7] false 4096)) =
      .ok (serialChecksum [115, 65, 109, 112, 7]) (Stream.onSource (.ofFile [7] false 4096)) ∧
    ∃ t, writeChunk [115, 65, 109, 112] [7] sampleFile = .ok () t ∧
      Source.bytesAt t.source.content 14 4 =
        ByteOrder.big.write 4 (serialChecksum [115, 65, 109, 112, 7]).toNat := by
  obtain ⟨parts, read, writable, stored⟩ := checksums_serial
  have held : (Stream.onSource (.ofFile [7] false 4096)).Held :=
    Stream.held_ofFile (by decide) false
  have file : (Stream.onSource (.ofFile [1, 2, 3] true 4096)).Editable :=
    Stream.editable_ofFile (by decide)
  have room : sampleFile.RoomFor 13 := ⟨trivial, rfl, by decide⟩
  obtain ⟨t, written⟩ := writable sampleFile [115, 65, 109, 112] [7] (file.seek 5) room (by decide)
  exact ⟨parts _, read _ _ held, t, written, stored _ t _ _ written⟩

end PackageAssets.Png
