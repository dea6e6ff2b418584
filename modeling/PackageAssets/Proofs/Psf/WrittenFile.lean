import PackageAssets.Proofs.Psf.Growing
import PackageAssets.Proofs.Psf.Tables

/-!
# A written file read

The header and the records of a written file are found as they were laid out.
Behind them the two tables start where the header says, so the pairs are found
in the order in which they were written.
-/
namespace PackageAssets.Psf

/-- The file ahead of a stream, as it was laid out. -/
structure HoldsFile (s : Stream) (version : UInt32) (pairs : List (String × Value))
    (records : List Record) : Prop where
  sound : s.Sound
  laid : layOut 0 0 pairs = .ok records
  fits : (headerOf version pairs).Fits
  visible : s.visible = fileBytes version pairs records

theorem holdsFile_of_encodeToBytes {version : UInt32} {d : Dictionary} {bytes : List UInt8}
    (written : encodeToBytes version d = .ok bytes) :
    ∃ records, HoldsFile (.ofBytes bytes) version d.pairs records := by
  obtain ⟨-, records, -, laid, -, fits, rfl, counted⟩ := encodeToBytes_eq_ok written
  exact ⟨records, Stream.sound_ofBytes counted, laid, fits, rfl⟩

namespace HoldsFile

variable {s : Stream} {version : UInt32} {pairs : List (String × Value)} {records : List Record}

theorem length_records (h : HoldsFile s version pairs records) : records.length = pairs.length :=
  length_layOut h.laid

/-- The reads over the front of the file, and the room for the records they announce. -/
theorem readFront (h : HoldsFile s version pairs records) :
    Stream.readExact magic.length (s.seek 0) = .ok magic (s.seek 4) ∧
      readHeader (s.seek 4) = .ok (headerOf version pairs) (s.seek 20) ∧
      pairs.length * recordSize ≤ (s.seek 20).remaining ∧
      readRecords pairs.length [] (s.seek 20) =
        .ok records (s.seek (20 + recordSize * pairs.length)) := by
  have known : (s.seek 0).ahead = fileBytes version pairs records := by
    rw [Stream.ahead_seek, h.visible, List.drop_zero]
  rw [fileBytes, frontBytes, List.append_assoc, List.append_assoc] at known
  have behindMagic : (s.seek 4).ahead = _ := Stream.ahead_seek_append known
  have behindHeader : (s.seek 20).ahead = _ := Stream.ahead_seek_append behindMagic
  refine ⟨Stream.readExact_append (h.sound.seek 0) known,
    readHeader_append (h.sound.seek 4) h.fits behindMagic, ?_, ?_⟩
  · have remains := Stream.length_ahead (h.sound.seek 20)
    rw [behindHeader, List.length_append, length_flatMap_recordBytes, h.length_records,
      Nat.mul_comm recordSize] at remains
    omega
  · rw [← h.length_records]
    exact readRecords_append (h.sound.seek 20) (fits_layOut h.laid) behindHeader []

theorem decodeHeaders_eq (h : HoldsFile s version pairs records) :
    ∃ notes, decodeHeaders (Decoder.start s) = .ok ()
      ⟨s.seek (20 + recordSize * pairs.length), ⟨some (headerOf version pairs), records⟩,
        notes⟩ := by
  obtain ⟨hmagic, hheader, enough, hrecords⟩ := h.readFront
  have room : ¬(s.seek 20).remaining < (headerOf version pairs).pairCount * recordSize :=
    Nat.not_lt.mpr enough
  have fresh : ¬(Decoder.start s).found.header.isSome = true := Bool.false_ne_true
  have start : Stream.setPosition 0 s = .ok () (s.seek 0) := rfl
  have right : ¬magic ≠ magic := fun differs => differs rfl
  rw [decodeHeaders, bind_of_ok (Reading.soFar_eq_ok _), if_neg fresh]
  dsimp only
  rw [bind_of_ok (Reading.onStream_of_ok start), bind_of_ok (Reading.onStream_of_ok hmagic),
    if_neg right, bind_of_ok (Reading.onStream_of_ok hheader),
    bind_of_ok (Reading.note_eq_ok ..), bind_of_ok (Reading.note_eq_ok ..),
    bind_of_ok (Reading.note_eq_ok ..), bind_of_ok (Reading.note_eq_ok ..),
    bind_of_ok (get_eq_ok _), if_neg room, bind_of_ok (Reading.onStream_of_ok hrecords)]
  exact ⟨_, rfl⟩

/-- The two tables, viewed from where the header says they start. -/
theorem exists_tables (h : HoldsFile s version pairs records) :
    ∃ keys values, s.slice (.included (headerOf version pairs).keyTable) .unbounded = .ok keys ∧
      s.slice (.included (headerOf version pairs).valueTable) .unbounded = .ok values ∧
      keys.Sound ∧ keys.visible = keyTableBytes pairs ++ valueTableBytes pairs ∧
      values.Sound ∧ values.visible = valueTableBytes pairs ∧
      max (headerOf version pairs).keyTable (headerOf version pairs).valueTable ≤ s.length := by
  have front := length_frontBytes version h.length_records
  have behindFront : s.visible =
      frontBytes version pairs records ++ (keyTableBytes pairs ++ valueTableBytes pairs) :=
    h.visible
  have behindKeys := behindFront
  rw [← List.append_assoc] at behindKeys
  obtain ⟨keys, hkeys, soundKeys, keysVisible, -⟩ := Stream.slice_append h.sound behindFront
  obtain ⟨values, hvalues, soundValues, valuesVisible, -⟩ := Stream.slice_append h.sound behindKeys
  have size := Stream.length_visible h.sound
  have after : (headerOf version pairs).valueTable =
      (headerOf version pairs).keyTable + (keyTableBytes pairs).length := rfl
  rw [behindFront, List.length_append, List.length_append, front] at size
  rw [front] at hkeys
  rw [List.length_append, front] at hvalues
  refine ⟨keys, values, hkeys, hvalues, soundKeys, keysVisible, soundValues, valuesVisible, ?_⟩
  omega

/-- The pairs come back in the order in which they were written. -/
theorem decodePairs_eq (h : HoldsFile s version pairs records) :
    ∃ after, decodePairs (Decoder.start s) = .ok (pairs.map cutPair) after := by
  obtain ⟨notes, hheaders⟩ := h.decodeHeaders_eq
  obtain ⟨keys, values, hkeys, hvalues, soundKeys, keysVisible, soundValues, valuesVisible,
    inside⟩ := h.exists_tables
  rw [keyTableBytes, padded_eq, List.append_assoc] at keysVisible
  rw [← List.append_nil (valueTableBytes pairs)] at valuesVisible
  have keysKnown : keys.visible = [] ++ _ := keysVisible
  have valuesKnown : values.visible = [] ++ _ := valuesVisible
  obtain ⟨more, hresolve⟩ := resolve_layOut soundKeys soundValues h.laid keysKnown valuesKnown rfl
    rfl [] ⟨s.seek (20 + recordSize * pairs.length),
      ⟨some (headerOf version pairs), records⟩, notes⟩
  have hkeys : (s.seek (20 + recordSize * pairs.length)).slice
      (.included (headerOf version pairs).keyTable) .unbounded = .ok keys := hkeys
  have hvalues : (s.seek (20 + recordSize * pairs.length)).slice
      (.included (headerOf version pairs).valueTable) .unbounded = .ok values := hvalues
  rw [decodePairs, bind_of_ok hheaders, bind_of_ok (Reading.soFar_eq_ok _)]
  dsimp only
  rw [bind_of_ok (get_eq_ok _)]
  dsimp only
  rw [Stream.length_seek, if_neg (Nat.not_lt.mpr inside), sliceFrom, hkeys, sliceFrom, hvalues]
  exact ⟨_, hresolve⟩

end HoldsFile

end PackageAssets.Psf
