import PackageAssets.Proofs.Png.Written
import PackageAssets.Proofs.Psf.Fronts

/-!
# Both writers on every sink

What a writer makes of an image or a dictionary does not depend on where it is
put: the bytes of the file that stands alone are the bytes at the position of
any other sink, or the first few of them where a slice has no room for all.
-/
namespace PackageAssets

theorem Png.encodeWith_fills {compress : Compressor} {image : Image} {options : EncoderOptions}
    {bytes : List UInt8} (written : encodeToBytesWith compress image options = .ok bytes) :
    Stream.Fills Error.io (encodeWith compress image options) bytes := by
  obtain ⟨⟨wide, tall, narrow, low⟩, small, rfl⟩ := encodeToBytesWith_eq_ok written
  rw [encodeWith_eq compress options wide tall narrow low]
  refine (emits_writeFile image small).fills ?_ Error.io
  rw [← List.length_pos_iff, length_writtenBytes]
  omega

theorem Psf.encode_fills {version : UInt32} {d : Dictionary} {bytes : List UInt8}
    (written : encodeToBytes version d = .ok bytes) :
    Stream.Fills id (encode version d) bytes := by
  obtain ⟨tables, records, made, -, holds, fits, rfl, -⟩ := encodeToBytes_eq_ok written
  rw [encode_eq made]
  exact (emits_writeFile holds fits).fills (List.cons_ne_nil _ _) id

/--
What can be written to a file of its own is written to every sink in memory: the same bytes,
counted, at the position, or a proper beginning of them in a slice that ends too early.
-/
theorem encoders_fill_sinks :
    (∀ compress image options bytes, Png.encodeToBytesWith compress image options = .ok bytes →
      Stream.Fills Png.Error.io (Png.encodeWith compress image options) bytes) ∧
    ∀ version d bytes, Psf.encodeToBytes version d = .ok bytes →
      Stream.Fills id (Psf.encode version d) bytes :=
  ⟨fun _ _ _ _ written => Png.encodeWith_fills written,
    fun _ _ _ written => Psf.encode_fills written⟩

/-- A root window behind a gap of two bytes. -/
def gapped : Stream := (Stream.ofBytes [7]).seek 3

/-- A slice with 59 bytes left, inside a source of 64. -/
def bounded : Stream := ⟨.ofBytes (List.replicate 64 7), ⟨.slice 2 62, 1, .none⟩⟩

theorem Stream.Fills.gap_and_slice {ε : Type} {ofIo : IoError → ε} {writer : EStateM ε Stream Nat}
    {bytes : List UInt8} (fills : Stream.Fills ofIo writer bytes) (long : 60 ≤ bytes.length)
    (short : bytes.length < 2 ^ 62) :
    (∃ t, writer gapped = .ok bytes.length t ∧ gapped.Overwritten bytes t ∧
      t.source.length = 3 + bytes.length ∧ t.source.content[2]? = some 0) ∧
    ∃ start stop limit t k, writer bounded = .error (ofIo (.outOfBounds start stop limit)) t ∧
      k < bytes.length ∧ bounded.Overwritten (bytes.take k) t ∧ t.source.length = 64 := by
  constructor
  · have vector : gapped.OnVector := ⟨(Stream.sound_ofBytes (by decide)).seek 3, by decide⟩
    have place : gapped.position = 3 := rfl
    obtain ⟨t, done, overwritten, length, gap⟩ := fills.whole gapped vector (by omega) trivial
    refine ⟨t, done, overwritten, ?_, gap 2 (by decide) (by decide)⟩
    rw [length]
    exact Nat.max_eq_left (Nat.le_trans (by decide) (Nat.le_add_right 3 _))
  · have vector : bounded.OnVector := ⟨⟨⟨64, rfl⟩, by decide, by decide⟩, by decide⟩
    have place : bounded.position = 1 := rfl
    have crosses : ¬bounded.Fits bytes.length := by
      change ¬1 + bytes.length ≤ 62 - 2
      omega
    obtain ⟨start, stop, limit, t, k, failed, fewer, -, overwritten, same⟩ :=
      fills.cut bounded vector (by omega) crosses
    exact ⟨start, stop, limit, t, k, failed, fewer, overwritten, same⟩

/-- A dictionary of two pairs and an image of one pixel, behind a gap and in a slice that ends in
the last table of the one and in the data of the other. -/
theorem encoders_fill_sinks_gap_and_slice :
    (∃ bytes, Psf.encodeToBytes Psf.defaultVersion Psf.filledSample = .ok bytes ∧
      (∃ t, Psf.encode Psf.defaultVersion Psf.filledSample gapped = .ok 60 t ∧
        gapped.Overwritten bytes t ∧ t.source.length = 63 ∧ t.source.content[2]? = some 0) ∧
      ∃ start stop limit t k, Psf.encode Psf.defaultVersion Psf.filledSample bounded =
          .error (.outOfBounds start stop limit) t ∧
        k < 60 ∧ bounded.Overwritten (bytes.take k) t ∧ t.source.length = 64) ∧
    let image : Image := ⟨1, 1, [0xFF332211], rfl⟩
    ∃ bytes, Png.encodeToBytesWith .storing image {} = .ok bytes ∧
      (∃ t, Png.encodeWith .storing image {} gapped = .ok 73 t ∧
        gapped.Overwritten bytes t ∧ t.source.length = 76 ∧ t.source.content[2]? = some 0) ∧
      ∃ start stop limit t k, Png.encodeWith .storing image {} bounded =
          .error (.io (.outOfBounds start stop limit)) t ∧
        k < 73 ∧ bounded.Overwritten (bytes.take k) t ∧ t.source.length = 64 := by
  constructor
  · have written : Psf.encodeToBytes Psf.defaultVersion Psf.filledSample = .ok Psf.filledFile := by
      decide +kernel
    exact ⟨_, written,
      (encoders_fill_sinks.2 _ _ _ written).gap_and_slice (by decide) (by decide)⟩
  · intro image
    have size : (Png.encodeToBytesWith .storing image {}).map List.length = .ok 73 := by
      decide +kernel
    cases written : Png.encodeToBytesWith .storing image {} with
    | error e =>
      rw [written] at size
      cases size
    | ok bytes =>
      rw [written] at size
      have size : bytes.length = 73 := Except.ok.inj size
      have filled := (encoders_fill_sinks.1 _ _ _ _ written).gap_and_slice (by omega) (by omega)
      rw [size] at filled
      exact ⟨bytes, rfl, filled⟩

end PackageAssets
