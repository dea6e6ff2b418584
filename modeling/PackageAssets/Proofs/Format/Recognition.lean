import PackageAssets.Proofs.Bmp.Headers
import PackageAssets.Proofs.Format.InStep
import PackageAssets.Proofs.Png.Grammar
import PackageAssets.Proofs.Psf.InStep
import PackageAssets.Proofs.Tga.Headers

/-!
# Telling formats apart

The first two bytes of a file are enough to see that at most one format can be
meant. Each format recognises whatever it can decode, for any limits, since the
fields for the size of a TGA are too narrow for the usual ones to matter. So the
order in which formats are tried does not show: data is decoded as a format
exactly when that format decodes it.
-/
namespace PackageAssets

namespace Stream

variable {s : Stream} (h : s.Sound)

/-- A view of the whole window is its own view of the whole window. -/
theorem wholeSlice_whole (s : Stream) :
    (s.part 0 s.length).wholeSlice = .ok (s.part 0 s.length) := by
  have base : (s.part 0 s.length).window.base = s.window.base := Nat.add_zero _
  have length : (s.part 0 s.length).length = s.length := length_part s 0 s.length
  rw [wholeSlice_eq, length, part, base]
  rfl

include h

theorem sound_whole : (s.part 0 s.length).Sound := sound_part h (Nat.zero_le _) (Nat.le_refl _)

theorem ahead_whole : (s.part 0 s.length).ahead = s.visible := by
  rw [ahead_part 0 (Nat.le_refl _), List.drop_zero, ← length_visible h, Nat.sub_zero,
    List.take_length]

end Stream

/-! ### What is recognised -/

/-- Whether a view of the whole window starts with some bytes. -/
def startsWith (front : List UInt8) (s : Stream) : Bool :=
  match s.wholeSlice with
  | .error _ => false
  | .ok view =>
    match Stream.readExact front.length view with
    | .ok found _ => found = front
    | .error _ _ => false

theorem startsWith_iff {s : Stream} (h : s.Sound) (front : List UInt8) :
    startsWith front s = true ↔ s.visible.take front.length = front := by
  have read := Stream.readExact_eq (Stream.sound_whole h) front.length
  rw [Stream.ahead_whole h] at read
  rw [startsWith, Stream.wholeSlice_eq]
  dsimp only
  rw [read]
  by_cases enough : front.length ≤ s.visible.length
  · simp [enough]
  · have short : s.visible.take front.length ≠ front := by
      intro same
      have size := congrArg List.length same
      rw [List.length_take] at size
      omega
    simp [enough, short]

section

variable {s : Stream} (h : s.Sound)

include h

theorem Png.probe_iff : Png.probe s = true ↔ s.visible.take signature.length = signature :=
  startsWith_iff h signature

theorem Psf.probe_iff : Psf.probe s = true ↔ s.visible.take magic.length = magic :=
  startsWith_iff h magic

theorem Bmp.probe_iff : Bmp.probe s = true ↔ Marked s.visible := by
  have sound := Stream.sound_whole h
  have ahead := Stream.ahead_whole h
  have named := Stream.readExact_eq sound magic.length
  have size := Stream.readNat_eq (sound.seek fileHeaderSize) .little 4
  have behind : ((s.part 0 s.length).seek fileHeaderSize).ahead =
      s.visible.drop fileHeaderSize := congrArg (List.drop fileHeaderSize) ahead
  have room : 4 ≤ s.visible.length - fileHeaderSize ↔ fileHeaderSize + 4 ≤ s.visible.length := by
    omega
  have front : fileHeaderSize + 4 ≤ s.visible.length → magic.length ≤ s.visible.length :=
    Nat.le_trans (by decide)
  rw [ahead] at named
  rw [behind, List.length_drop] at size
  rw [probe, Stream.wholeSlice_eq]
  dsimp only
  rw [named]
  by_cases enough : magic.length ≤ s.visible.length
  · simp only [enough, if_true, Stream.seek_seek, size, room]
    by_cases long : fileHeaderSize + 4 ≤ s.visible.length
    · simp only [long, if_true]
      constructor
      · intro found
        split at found
        case isTrue same => exact ⟨same, long, List.contains_iff_mem.mp found⟩
        case isFalse => cases found
      · rintro ⟨same, -, known⟩
        rw [if_pos same]
        exact List.contains_iff_mem.mpr known
    · simp only [long, if_false, ite_self, Bool.false_eq_true, false_iff]
      exact fun marked => long marked.long
  · simp only [enough, if_false, Bool.false_eq_true, false_iff]
    exact fun marked => enough (front marked.long)

theorem Tga.probe_iff : (Tga.probe s).1 = true ↔ Readable .usual s.visible := by
  have header := reaches_decodeHeaders (fun _ _ => True)
    (r := Decoder.start (s.part 0 s.length) .usual) (Stream.sound_whole h) rfl
  have ahead : (Decoder.start (s.part 0 s.length) .usual).stream.ahead = s.visible :=
    Stream.ahead_whole h
  rw [ahead, and_true] at header
  rw [probe, Stream.wholeSlice_eq]
  exact (Reading.outcome_isOk_iff _ _).trans header

end

/-! ### One format at most -/

theorem fronts_comparable {front other bytes : List UInt8}
    (named : bytes.take front.length = front) (otherwise : bytes.take other.length = other) :
    front <+: other ∨ other <+: front :=
  List.prefix_or_prefix_of_prefix (List.prefix_iff_eq_take.mpr named.symm)
    (List.prefix_iff_eq_take.mpr otherwise.symm)

/-- The second byte of a TGA is the type of its colour map. -/
theorem Tga.not_readable_of_front {options : DecoderOptions} {first second : UInt8}
    {more bytes : List UInt8}
    (named : bytes.take (first :: second :: more).length = first :: second :: more)
    (large : 1 < second.toNat) : ¬Readable options bytes := by
  intro readable
  rcases bytes with _ | ⟨a, _ | ⟨b, rest⟩⟩
  · cases named
  · cases named
  · have same : b = second := by
      simp only [List.length_cons, List.take_succ_cons, List.cons.injEq] at named
      exact named.2.1
    have field : fieldAt (a :: b :: rest) 1 1 = b.toNat := rfl
    have few := readable.mapType
    rw [field, same] at few
    omega

section

variable {s : Stream} (h : s.Sound)

include h

theorem recognised_once :
    [Png.probe s, Bmp.probe s, (Tga.probe s).1, Psf.probe s].count true ≤ 1 := by
  have counted : ∀ png bmp tga psf : Bool, ¬(png ∧ bmp) → ¬(png ∧ tga) → ¬(png ∧ psf) →
      ¬(bmp ∧ tga) → ¬(bmp ∧ psf) → ¬(tga ∧ psf) → [png, bmp, tga, psf].count true ≤ 1 := by
    decide
  apply counted <;> rw [not_and]
  · rw [Png.probe_iff h, Bmp.probe_iff h]
    intro named marked
    exact absurd (fronts_comparable named marked.named) (by decide)
  · rw [Png.probe_iff h, Tga.probe_iff h]
    exact fun named => Tga.not_readable_of_front named (by decide)
  · rw [Png.probe_iff h, Psf.probe_iff h]
    intro named otherwise
    exact absurd (fronts_comparable named otherwise) (by decide)
  · rw [Bmp.probe_iff h, Tga.probe_iff h]
    exact fun marked => Tga.not_readable_of_front marked.named (by decide)
  · rw [Bmp.probe_iff h, Psf.probe_iff h]
    intro marked named
    exact absurd (fronts_comparable marked.named named) (by decide)
  · rw [Tga.probe_iff h, Psf.probe_iff h]
    exact fun readable named => Tga.not_readable_of_front named (by decide) readable

theorem ImageFormat.eq_of_probe {format other : ImageFormat} (one : (format.probe s).1 = true)
    (another : (other.probe s).1 = true) : format = other := by
  have unique : ∀ png bmp tga psf : Bool, [png, bmp, tga, psf].count true ≤ 1 →
      (png = true → bmp = false ∧ tga = false) ∧ (bmp = true → tga = false) := by
    decide
  obtain ⟨png, bmp⟩ := unique _ _ _ _ (recognised_once h)
  cases format <;> cases other <;> simp_all [probe]

/-! ### Whatever can be decoded is recognised -/

variable {options : DecoderOptions}

theorem Png.probe_of_decodeHeaders {t : Decoder}
    (read : decodeHeaders (Decoder.start (s.part 0 s.length) options) = .ok () t) :
    Png.probe s = true := by
  have steps := read
  rw [decodeHeaders_eq rfl] at steps
  obtain ⟨_, r, signed, -⟩ := bind_eq_ok_iff.mp steps
  obtain ⟨rest, ahead⟩ := of_readSignature (Stream.sound_whole h) signed
  have visible : s.visible = signature ++ rest := (Stream.ahead_whole h).symm.trans ahead
  rw [Png.probe_iff h, visible, List.take_left]

theorem Bmp.probe_of_decodeHeaders {t : Decoder}
    (read : decodeHeaders (Decoder.start (s.part 0 s.length) options) = .ok () t) :
    Bmp.probe s = true := by
  have marked := marked_of_decodeHeaders (Stream.sound_whole h) rfl rfl read
  have ahead : (Decoder.start (s.part 0 s.length) options).stream.ahead = s.visible :=
    Stream.ahead_whole h
  rw [ahead] at marked
  exact (Bmp.probe_iff h).mpr marked

theorem Tga.probe_of_decodeHeaders {t : Decoder}
    (read : decodeHeaders (Decoder.start (s.part 0 s.length) options) = .ok () t) :
    (Tga.probe s).1 = true := by
  have header := reaches_decodeHeaders (fun _ _ => True)
    (r := Decoder.start (s.part 0 s.length) options) (Stream.sound_whole h) rfl
  have ahead : (Decoder.start (s.part 0 s.length) options).stream.ahead = s.visible :=
    Stream.ahead_whole h
  rw [ahead] at header
  have readable := (header.mp ⟨(), t, read, trivial⟩).1
  exact (Tga.probe_iff h).mpr readable.usual

end

end PackageAssets
