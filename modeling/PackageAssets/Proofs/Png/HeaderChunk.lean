import PackageAssets.Proofs.Png.Chunk

/-!
# The payload of a header chunk

Thirteen bytes hold seven fields, and every thirteen bytes do. Reading them is
judging the fields in order; it succeeds just on the payload that the writer
of a header within the limits would store.
-/
namespace PackageAssets.Png

/-- The thirteen bytes that describe an image. -/
def Header.payload (h : Header) : List UInt8 :=
  ByteOrder.big.write 4 h.width ++ (ByteOrder.big.write 4 h.height ++
    [UInt8.ofNat h.depth, UInt8.ofNat h.color.code, 0, 0, 0])

/-- A header that can be stored, is supported and is not refused by the options. -/
structure Header.Admitted (options : DecoderOptions) (h : Header) : Prop where
  width_pos : 0 < h.width
  width_lt : h.width < 2 ^ 32
  height_pos : 0 < h.height
  height_lt : h.height < 2 ^ 32
  within : h.width ≤ options.maxWidth ∧ h.height ≤ options.maxHeight
  depth : h.depth = 8

theorem Header.length_payload (h : Header) : h.payload.length = 13 := by
  simp [payload, ByteOrder.length_write]

theorem ColorType.code_of_ofCode? {n : Nat} {color : ColorType} (h : ofCode? n = some color) :
    n = color.code := by
  unfold ofCode? at h
  split at h
  · cases h
    rfl
  · cases h
    rfl
  · cases h

/-- The fields of a header chunk, one byte each but for the size. -/
structure HeaderFields where
  width : Nat
  height : Nat
  depth : UInt8
  color : UInt8
  compression : UInt8
  filtering : UInt8
  interlacing : UInt8
  width_lt : width < 2 ^ 32
  height_lt : height < 2 ^ 32

namespace HeaderFields

def bytes (f : HeaderFields) : List UInt8 :=
  ByteOrder.big.write 4 f.width ++ (ByteOrder.big.write 4 f.height ++
    [f.depth, f.color, f.compression, f.filtering, f.interlacing])

theorem exists_bytes {payload : List UInt8} (size : payload.length = 13) :
    ∃ f : HeaderFields, payload = f.bytes := by
  obtain ⟨width, later, rfl, hwidth⟩ := exists_split (l := payload) (n := 4) (by omega)
  rw [List.length_append] at size
  obtain ⟨height, later, rfl, hheight⟩ := exists_split (l := later) (n := 4) (by omega)
  rw [List.length_append] at size
  have widthLt := ByteOrder.read_lt .big width
  have heightLt := ByteOrder.read_lt .big height
  have widthBack := ByteOrder.write_read .big width
  have heightBack := ByteOrder.write_read .big height
  rw [hwidth] at widthLt widthBack
  rw [hheight] at heightLt heightBack
  match later, size with
  | [d, c, m, f, i], _ =>
    refine ⟨⟨ByteOrder.big.read width, ByteOrder.big.read height, d, c, m, f, i, widthLt,
      heightLt⟩, ?_⟩
    rw [bytes, widthBack, heightBack]
  | [], size | [_], size | [_, _], size | [_, _, _], size | [_, _, _, _], size =>
    simp only [hwidth, hheight, List.length_cons, List.length_nil] at size
    omega
  | _ :: _ :: _ :: _ :: _ :: _ :: _, size =>
    simp only [hwidth, hheight, List.length_cons] at size
    omega

/-- What the fields amount to, judged in order. -/
def judge (options : DecoderOptions) (f : HeaderFields) : Except Error Header :=
  if f.width = 0 ∨ f.height = 0 then .error .zeroDimensions
  else if options.refuses f.width f.height then .error (.largeDimensions f.width f.height)
  else if f.depth.toNat ≠ supportedDepth then .error (.unsupportedDepth f.depth.toNat)
  else match ColorType.ofCode? f.color.toNat with
    | none => .error (.unsupportedColor f.color.toNat)
    | some color =>
      if f.compression.toNat ≠ 0 then
        .error (.unsupportedMethod "compression" f.compression.toNat)
      else if f.filtering.toNat ≠ 0 then .error (.unsupportedMethod "filter" f.filtering.toNat)
      else if f.interlacing.toNat ≠ 0 then
        .error (.unsupportedMethod "interlace" f.interlacing.toNat)
      else .ok ⟨f.width, f.height, f.depth.toNat, color⟩

theorem judge_payload {options : DecoderOptions} {header : Header}
    (admitted : header.Admitted options) :
    ∃ f : HeaderFields, f.bytes = header.payload ∧ f.judge options = .ok header := by
  obtain ⟨width, height, depth, color⟩ := header
  obtain ⟨widthPos, widthLt, heightPos, heightLt, ⟨narrow, low⟩, rfl⟩ := admitted
  refine ⟨⟨width, height, 8, UInt8.ofNat color.code, 0, 0, 0, widthLt, heightLt⟩, rfl, ?_⟩
  have nonzero : ¬(width = 0 ∨ height = 0) := by
    dsimp only at widthPos heightPos
    omega
  have admits : options.refuses width height = false := by
    dsimp only at narrow low
    simp [DecoderOptions.refuses, narrow, low]
  rw [judge, if_neg nonzero, admits]
  cases color <;> rfl

theorem of_refuse_eq_ok {α : Type} {p : Prop} [Decidable p] {e : Error}
    {judged : Except Error α} {a : α} (h : (if p then .error e else judged) = .ok a) :
    ¬p ∧ judged = .ok a := by
  by_cases refused : p
  · rw [if_pos refused] at h
    cases h
  · rw [if_neg refused] at h
    exact ⟨refused, h⟩

theorem of_judge_eq_ok {options : DecoderOptions} {f : HeaderFields} {header : Header}
    (h : f.judge options = .ok header) :
    f.bytes = header.payload ∧ header.Admitted options := by
  obtain ⟨width, height, depth, color, compression, filtering, interlacing, widthLt, heightLt⟩ := f
  rw [judge] at h
  dsimp only at h
  obtain ⟨nonzero, h⟩ := of_refuse_eq_ok h
  obtain ⟨admits, h⟩ := of_refuse_eq_ok h
  obtain ⟨deep, h⟩ := of_refuse_eq_ok h
  cases code : ColorType.ofCode? color.toNat with
  | none =>
    rw [code] at h
    cases h
  | some type =>
    rw [code] at h
    obtain ⟨packed, h⟩ := of_refuse_eq_ok h
    obtain ⟨filtered, h⟩ := of_refuse_eq_ok h
    obtain ⟨interlaced, h⟩ := of_refuse_eq_ok h
    cases h
    have zero {b : UInt8} (h : ¬b.toNat ≠ 0) : b = 0 :=
      UInt8.toNat_inj.mp (Decidable.not_not.mp h)
    have coded : color = UInt8.ofNat type.code := by
      rw [← ColorType.code_of_ofCode? code, UInt8.ofNat_toNat]
    rw [zero packed, zero filtered, zero interlaced, coded]
    constructor
    · simp only [bytes, Header.payload, UInt8.ofNat_toNat]
    · simp only [DecoderOptions.refuses, Bool.or_eq_true, decide_eq_true_eq] at admits
      refine ⟨?_, widthLt, ?_, heightLt, ⟨?_, ?_⟩, Decidable.not_not.mp deep⟩
      all_goals
        dsimp only
        omega

end HeaderFields

theorem headerField_append {s : Stream} (h : s.Sound) {width n : Nat} {rest : List UInt8}
    (fits : n < 256 ^ width) (known : s.ahead = ByteOrder.big.write width n ++ rest) :
    headerField width s = .ok (n, s.seek (s.position + width)) := by
  rw [headerField, Stream.readNat_append h fits known]

theorem headerField_byte {s : Stream} (h : s.Sound) {b : UInt8} {rest : List UInt8}
    (known : s.ahead = b :: rest) :
    headerField 1 s = .ok (b.toNat, s.seek (s.position + 1)) := by
  have one : ByteOrder.big.write 1 b.toNat = [b] := by
    simp [ByteOrder.write, ByteOrder.toLittle]
  rw [← List.singleton_append, ← one] at known
  exact headerField_append h b.toNat_lt known

theorem headerField_bind {α : Type} {width n : Nat} {s t : Stream}
    {next : Nat → StateT Stream (Except Error) α} (h : headerField width s = .ok (n, t)) :
    (headerField width >>= next) s = next n t := by
  change (headerField width s >>= fun p => next p.1 p.2) = next n t
  rw [h]
  rfl

/-- A field that is refused ends the reading and the judging alike. -/
theorem refuse_eq {α β : Type} {p : Prop} [Decidable p] {e : Error}
    {next : StateT Stream (Except Error) α} {s : Stream} {judged : Except Error β}
    {f : β → α × Stream} (h : next s = judged.map f) :
    (do
      if p then throw e
      next : StateT Stream (Except Error) α) s =
      (if p then .error e else judged).map f := by
  by_cases refused : p
  · rw [if_pos refused, if_pos refused]
    rfl
  · rw [if_neg refused, if_neg refused]
    exact h

theorem parseHeader_eq (options : DecoderOptions) {s : Stream} (h : s.Sound) {f : HeaderFields}
    (known : s.ahead = f.bytes) :
    parseHeader options s =
      (f.judge options).map fun header => (header, s.seek (s.position + 13)) := by
  rw [HeaderFields.bytes] at known
  have width := headerField_append h f.width_lt known
  have known := Stream.ahead_seek_write known
  have height := headerField_append (h.seek _) f.height_lt known
  have known := Stream.ahead_seek_write known
  have depth := headerField_byte (h.seek _) known
  have known := Stream.ahead_seek_cons known
  have color := headerField_byte (h.seek _) known
  have known := Stream.ahead_seek_cons known
  have compression := headerField_byte (h.seek _) known
  have known := Stream.ahead_seek_cons known
  have filtering := headerField_byte (h.seek _) known
  have known := Stream.ahead_seek_cons known
  have interlacing := headerField_byte (h.seek _) known
  simp only [Stream.seek_position, Stream.seek_seek, Nat.add_assoc, Nat.reduceAdd]
    at height depth color compression filtering interlacing
  rw [parseHeader, headerField_bind width, headerField_bind height, HeaderFields.judge]
  apply refuse_eq
  apply refuse_eq
  rw [headerField_bind depth]
  apply refuse_eq
  rw [headerField_bind color]
  cases ColorType.ofCode? f.color.toNat with
  | none => rfl
  | some color =>
    dsimp only
    rw [headerField_bind compression]
    apply refuse_eq
    rw [headerField_bind filtering]
    apply refuse_eq
    rw [headerField_bind interlacing]
    apply refuse_eq
    rfl

theorem parseHeader_payload {options : DecoderOptions} {s : Stream} (h : s.Sound)
    {header : Header} (known : s.ahead = header.payload) (admitted : header.Admitted options) :
    parseHeader options s = .ok (header, s.seek (s.position + 13)) := by
  obtain ⟨f, hbytes, hjudge⟩ := HeaderFields.judge_payload admitted
  rw [parseHeader_eq options h (known.trans hbytes.symm), hjudge]
  rfl

theorem of_parseHeader_eq_ok {options : DecoderOptions} {s after : Stream} (h : s.Sound)
    (size : s.ahead.length = 13) {header : Header}
    (parsed : parseHeader options s = .ok (header, after)) :
    s.ahead = header.payload ∧ header.Admitted options := by
  obtain ⟨f, known⟩ := HeaderFields.exists_bytes size
  rw [parseHeader_eq options h known] at parsed
  cases judged : f.judge options with
  | error e =>
    rw [judged] at parsed
    cases parsed
  | ok found =>
    rw [judged] at parsed
    cases parsed
    rw [known]
    exact HeaderFields.of_judge_eq_ok judged

end PackageAssets.Png
