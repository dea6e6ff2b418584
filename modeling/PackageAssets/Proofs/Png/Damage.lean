import PackageAssets.Proofs.Checksum.Burst
import PackageAssets.Proofs.Png.Grammar

/-!
# Damaged chunks

Bits may be flipped in the name and the payload of a chunk while its length
and its stored checksum stand. A reader that confirms checksums stops at such
a chunk, whatever its name has become, if the chunks in front of it are read
as they were: nothing is done with a chunk before its checksum was looked at.
-/
namespace PackageAssets.Png

open Deflate Crc32

namespace StoredChunk

variable (c : StoredChunk) (flipped : Nat → Bool)

/-- The bytes the checksum is taken of. -/
def covered : List UInt8 := c.name ++ c.payload

theorem length_covered : c.covered.length = 4 + c.payload.length := by
  rw [covered, List.length_append, c.length_name]

/-- The chunk with flipped bits in its name and payload; its length and checksum stand. -/
def damaged : StoredChunk where
  name := (flipBytes flipped c.covered).take 4
  payload := (flipBytes flipped c.covered).drop 4
  checksum := c.checksum
  length_name := by
    rw [List.length_take, length_flipBytes, c.length_covered]
    exact Nat.min_eq_left (Nat.le_add_right _ _)
  length_payload := by
    rw [List.length_drop, length_flipBytes, c.length_covered, Nat.add_sub_cancel_left]
    exact c.length_payload

theorem covered_damaged : (c.damaged flipped).covered = flipBytes flipped c.covered :=
  List.take_append_drop 4 _

theorem bytes_damaged : (c.damaged flipped).bytes = ByteOrder.big.write 4 c.payload.length ++
    (flipBytes flipped c.covered ++ ByteOrder.big.write 4 c.checksum.toNat) := by
  have size : (c.damaged flipped).payload.length = c.payload.length := by
    change (List.drop 4 _).length = _
    rw [List.length_drop, length_flipBytes, c.length_covered, Nat.add_sub_cancel_left]
  rw [bytes, size, ← List.append_assoc (c.damaged flipped).name]
  exact congrArg _ (congrArg (· ++ _) (c.covered_damaged flipped))

variable {c flipped}

/-- A burst in a chunk with the right checksum makes it wrong. -/
theorem not_intact_damaged (intact : c.Intact) (burst : Burst flipped (8 * c.covered.length)) :
    ¬(c.damaged flipped).Intact := by
  intro unseen
  have same : Crc32.ofBytes (flipBytes flipped c.covered) = Crc32.ofBytes c.covered := by
    rw [← c.covered_damaged flipped]
    exact unseen.symm.trans intact
  exact ofBytes_flipBytes_ne burst same

end StoredChunk

/-! ### The reader -/

/-- A chunk up to which a file was read is intact, and so are those in front of it. -/
theorem intact_of_decodeHeaders {s : Stream} (h : s.Sound) {options : DecoderOptions}
    (confirm : options.confirmChecksums = true) {after : Decoder}
    (read : decodeHeaders (Decoder.start s options) = .ok () after)
    {front : List StoredChunk} {c : StoredChunk} {rest : List UInt8}
    (known : s.ahead = signature ++ (front.flatMap StoredChunk.bytes ++ (c.bytes ++ rest)))
    (inner : ∀ d ∈ front, d.name ≠ Name.terminator) :
    (∀ d ∈ front, d.Intact) ∧ c.Intact ∧ ∃ w, Run (begun s options).found front w := by
  obtain ⟨behind, steps⟩ := decodeHeaders_start_eq h options known
  rw [steps] at read
  obtain ⟨_, t, walked, -⟩ := bind_eq_ok_iff.mp read
  have sound : (begun s options).stream.Sound := h.seek _
  have enough := Nat.lt_succ_of_le (Nat.le_of_eq (congrArg List.length behind))
  obtain ⟨intact, w, run⟩ := run_front_of_walk sound enough behind inner walked
  obtain ⟨left, position, notes, room, ahead, same⟩ :=
    walk_front sound enough behind intact inner run
  obtain ⟨left, rfl⟩ := Nat.exists_eq_add_one_of_ne_zero (Nat.ne_zero_of_lt room)
  rw [same] at walked
  obtain ⟨whole, -⟩ := taken_of_walk_append (sound.seek position) ahead walked
  refine ⟨intact confirm, whole ?_, w, run⟩
  exact (congrArg DecoderOptions.confirmChecksums run.options_eq).trans confirm

/--
A burst in one chunk of a file that was read, up to the last chunk, is found: the reader stops
there with the name as it is now stored, the stored checksum, and the one it took.
-/
theorem decodeHeaders_detects_burst {s t : Stream} (hs : s.Sound) (ht : t.Sound)
    {options : DecoderOptions} (confirm : options.confirmChecksums = true) {after : Decoder}
    (read : decodeHeaders (Decoder.start s options) = .ok () after)
    {front : List StoredChunk} {c : StoredChunk} {rest : List UInt8}
    (known : s.ahead = signature ++ (front.flatMap StoredChunk.bytes ++ (c.bytes ++ rest)))
    (inner : ∀ d ∈ front, d.name ≠ Name.terminator)
    {flipped : Nat → Bool} (burst : Burst flipped (8 * c.covered.length))
    (struck : t.ahead = signature ++ (front.flatMap StoredChunk.bytes ++
      (ByteOrder.big.write 4 c.payload.length ++
        (flipBytes flipped c.covered ++ ByteOrder.big.write 4 c.checksum.toNat) ++ rest))) :
    ∃ stopped, decodeHeaders (Decoder.start t options) =
      .error (.badChecksum ((flipBytes flipped c.covered).take 4) c.checksum
        (Crc32.ofBytes (flipBytes flipped c.covered))) stopped := by
  obtain ⟨intact, whole, w, run⟩ := intact_of_decodeHeaders hs confirm read known inner
  rw [← c.bytes_damaged flipped] at struck
  obtain ⟨behind, steps⟩ := decodeHeaders_start_eq ht options struck
  have sound : (begun t options).stream.Sound := ht.seek _
  have enough := Nat.lt_succ_of_le (Nat.le_of_eq (congrArg List.length behind))
  obtain ⟨left, position, notes, room, ahead, walked⟩ :=
    walk_front sound enough behind (fun _ => intact) inner run
  obtain ⟨left, rfl⟩ := Nat.exists_eq_add_one_of_ne_zero (Nat.ne_zero_of_lt room)
  have asked : w.options.confirmChecksums = true :=
    (congrArg DecoderOptions.confirmChecksums run.options_eq).trans confirm
  have stops := readChunk_corrupt (r := ⟨(begun t options).stream.seek position, w, notes⟩)
    (sound.seek position) ahead asked (StoredChunk.not_intact_damaged whole burst)
  have covered := c.covered_damaged flipped
  rw [StoredChunk.covered] at covered
  have more := not_atEnd (sound.seek position) ahead
  rw [walk_more (r := ⟨(begun t options).stream.seek position, w, notes⟩) more,
    bind_of_error stops, covered] at walked
  exact ⟨_, steps.trans (bind_of_error walked)⟩

/-- Two flipped bits, the first and the last of 32. -/
def endsOfWord (i : Nat) : Bool := i = 33 || i = 64

theorem decodeHeaders_detects_endsOfWord :
    let head := StoredChunk.sealed Name.header (Header.payload ⟨1, 1, 8, .rgb⟩) rfl (by decide)
    let data := StoredChunk.sealed Name.data [1, 2, 3, 4, 5] rfl (by decide)
    let last := StoredChunk.sealed Name.terminator [] rfl (by decide)
    ∃ stopped, decodeHeaders (Decoder.start (.ofBytes (signature ++
        (head.bytes ++ ((data.damaged endsOfWord).bytes ++ last.bytes)))) .strictest) =
      .error (.badChecksum Name.data data.checksum
        (Crc32.ofBytes (Name.data ++ [3, 2, 3, 4, 4]))) stopped := by
  intro head data last
  have small (c : StoredChunk) (size : c.bytes.length = 17) :
      (signature ++ (head.bytes ++ (c.bytes ++ last.bytes))).length < Count.bound := by
    simp only [List.length_append, size]
    decide
  have whole : (Stream.ofBytes (signature ++ (head.bytes ++ (data.bytes ++ last.bytes)))).ahead =
      signature ++ ((plainChunks ⟨1, 1, 8, .rgb⟩ [1, 2, 3, 4, 5] (by decide)).flatMap
        StoredChunk.bytes ++ []) := by
    change _ = signature ++ (head.bytes ++ (data.bytes ++ (last.bytes ++ [])) ++ [])
    rw [List.append_nil, List.append_nil]
    rfl
  have wellFormed : WellFormed .strictest (plainChunks ⟨1, 1, 8, .rgb⟩ [1, 2, 3, 4, 5] (by decide))
      [] ⟨1, 1, 8, .rgb⟩ :=
    wellFormed_plainChunks ⟨by decide, by decide, by decide, by decide, by decide, rfl⟩ _
      (by decide) _
  have sound := Stream.sound_ofBytes (small data (data.length_bytes))
  have struck := Stream.sound_ofBytes (small (data.damaged endsOfWord)
    ((data.damaged endsOfWord).length_bytes))
  obtain ⟨after, read, -⟩ := decodeHeaders_wellFormed sound whole wellFormed
  have burst : Burst endsOfWord (8 * data.covered.length) := by
    refine ⟨⟨33, rfl⟩, ?_, 33, ?_⟩
    · intro i flips
      have size : data.covered.length = 9 := rfl
      simp [endsOfWord] at flips
      omega
    · intro i flips
      simp [endsOfWord] at flips
      omega
  have alone : [head].flatMap StoredChunk.bytes = head.bytes := List.append_nil _
  have inner : ∀ d ∈ [head], d.name ≠ Name.terminator := by decide
  have flips : flipBytes endsOfWord data.covered = Name.data ++ [3, 2, 3, 4, 4] := by decide
  have found := decodeHeaders_detects_burst sound struck rfl read (by rw [alone]; rfl) inner burst
    (by rw [alone, ← data.bytes_damaged]; rfl)
  rw [flips] at found
  exact found

end PackageAssets.Png
