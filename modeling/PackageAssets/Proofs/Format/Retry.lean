import PackageAssets.Proofs.Format.Agreement
import PackageAssets.Proofs.Stream.Ends

/-!
# Asking again after a failure

A reader that could not read its headers stays where it stopped, and reads on
from there when it is asked again. What it then accepts is not the stream it
refused, but what follows in it. A BMP or TGA reader has nothing to show until
it has read all headers; a PNG reader shows the size of an image as soon as it
has taken a header chunk, also when a later chunk makes it fail.
-/
namespace PackageAssets

open Reading

/-! ### PNG -/

namespace Png

/--
The header is of an image that is not empty and that the options admit, and its sides are numbers
that a field can hold.
-/
structure Header.Sized (options : DecoderOptions) (h : Header) : Prop where
  width : h.width < 256 ^ 4
  height : h.height < 256 ^ 4
  filled : ¬(h.width = 0 ∨ h.height = 0)
  within : ¬options.refuses h.width h.height = true

/-- What a walk that is not over has found. -/
structure Walk.Unfinished (options : DecoderOptions) (w : Walk) : Prop where
  options_eq : w.options = options
  incomplete : w.complete = false
  sized : ∀ header, w.header = some header → header.Sized options

/-- What a walk that is over has found. -/
structure Walk.Finished (options : DecoderOptions) (w : Walk) : Prop where
  options_eq : w.options = options
  complete : w.complete = true
  headed : ∃ header, w.header = some header ∧ header.Sized options

section Fields

variable {α β : Type} {s : Stream} {x : StateT Stream (Except Error) α}

theorem of_fields_bind {f : α → StateT Stream (Except Error) β} {b : β} {u : Stream}
    (done : (x >>= f) s = .ok (b, u)) : ∃ a t, x s = .ok (a, t) ∧ f a t = .ok (b, u) := by
  change (x s >>= fun p => f p.1 p.2) = .ok (b, u) at done
  cases ran : x s with
  | error e =>
    rw [ran] at done
    cases done
  | ok p =>
    rw [ran] at done
    exact ⟨p.1, p.2, rfl, done⟩

theorem of_fields_check {c : Prop} [Decidable c] {e : Error} {p : α × Stream}
    (done : (if c then (do (throw e : StateT Stream (Except Error) Unit); x) else x) s = .ok p) :
    ¬c ∧ x s = .ok p := by
  by_cases h : c
  · rw [if_pos h] at done
    cases done
  · rw [if_neg h] at done
    exact ⟨h, done⟩

end Fields

theorem headerField_lt {width n : Nat} {s t : Stream} (read : headerField width s = .ok (n, t)) :
    n < 256 ^ width := by
  unfold headerField at read
  split at read
  case h_1 field =>
    cases read
    exact Stream.readNat_lt field
  · cases read

theorem sized_of_parseHeader {options : DecoderOptions} {s t : Stream} {header : Header}
    (parsed : parseHeader options s = .ok (header, t)) : header.Sized options := by
  unfold parseHeader at parsed
  obtain ⟨width, s, wide, parsed⟩ := of_fields_bind parsed
  obtain ⟨height, s, tall, parsed⟩ := of_fields_bind parsed
  obtain ⟨filled, parsed⟩ := of_fields_check parsed
  obtain ⟨within, parsed⟩ := of_fields_check parsed
  obtain ⟨depth, s, -, parsed⟩ := of_fields_bind parsed
  obtain ⟨-, parsed⟩ := of_fields_check parsed
  obtain ⟨code, s, -, parsed⟩ := of_fields_bind parsed
  cases color : ColorType.ofCode? code with
  | none =>
    rw [color] at parsed
    cases parsed
  | some color =>
    rw [‹ColorType.ofCode? code = _›] at parsed
    obtain ⟨compression, s, -, parsed⟩ := of_fields_bind parsed
    obtain ⟨-, parsed⟩ := of_fields_check parsed
    obtain ⟨filtering, s, -, parsed⟩ := of_fields_bind parsed
    obtain ⟨-, parsed⟩ := of_fields_check parsed
    obtain ⟨interlacing, s, -, parsed⟩ := of_fields_bind parsed
    obtain ⟨-, parsed⟩ := of_fields_check parsed
    cases parsed
    exact ⟨headerField_lt wide, headerField_lt tall, filled, within⟩

section Walking

variable {s : Stream} {options : DecoderOptions}

theorem keeps_readSignature {known : Walk → Prop} : Keeps (Standing s known) readSignature := by
  unfold readSignature
  refine leaves_bind (keeps_onStream (Stream.moves_readBytes _)) fun found => ?_
  exact leaves_check (leaves_ite (leaves_throw _) (keeps_pure ()))

theorem keeps_readChunk {known : Walk → Prop} : Keeps (Standing s known) readChunk := by
  have named (name : List UInt8) (length : Nat) (data : Stream) (stored : UInt32) :
      Keeps (Standing s known) (do
        Reading.note .trace .pngReader s!"Chunk {Text.ofBytes name} of {length} bytes"
        return ⟨name, length, data, stored⟩ : DecoderM Chunk) :=
    leaves_bind (keeps_note _ _ _) fun _ => keeps_pure _
  unfold readChunk
  refine leaves_bind (keeps_onStream (Stream.moves_readNat .big 4)) fun length => ?_
  refine leaves_bind (keeps_onStream (Stream.moves_readExact 4)) fun name => ?_
  refine leaves_bind (keeps_onStream (Stream.moves_readStream length)) fun data => ?_
  refine leaves_bind (keeps_onStream (Stream.moves_readNat .big 4)) fun stored => ?_
  refine leaves_soFar fun w _ => leaves_ite ?_ (named _ _ _ _)
  cases checksum name data with
  | error e _ => exact fun _ held => .error held
  | ok found _ => exact leaves_check (named _ _ _ _)

theorem keeps_takeHeader (chunk : Chunk) :
    Keeps (Standing s (Walk.Unfinished options)) (takeHeader chunk) := by
  unfold takeHeader
  refine leaves_soFar fun w unfinished => leaves_check (leaves_check ?_)
  rw [unfinished.options_eq]
  cases parsed : parseHeader options chunk.data with
  | error e => exact leaves_throw e
  | ok read =>
    refine leaves_bind (keeps_note _ _ _) fun _ => ?_
    refine leaves_bind (keeps_note _ _ _) fun _ => ?_
    refine leaves_bind (keeps_note _ _ _) fun _ => ?_
    refine leaves_bind (keeps_note _ _ _) fun _ => ?_
    -- the one step that finds a header; it stays when a later chunk makes the reader fail
    refine keeps_modifyFound fun w unfinished => ⟨unfinished.options_eq, unfinished.incomplete, ?_⟩
    rintro _ ⟨⟩
    exact sized_of_parseHeader parsed

theorem keeps_takeData (chunk : Chunk) :
    Keeps (Standing s (Walk.Unfinished options)) (takeData chunk) := by
  unfold takeData
  refine leaves_soFar fun w _ => leaves_check ?_
  cases Stream.readRemaining chunk.data with
  | error e _ => exact leaves_throw _
  | ok payload _ => exact keeps_modifyFound fun w h => ⟨h.options_eq, h.incomplete, h.sized⟩

theorem keeps_skipChunk {known : Walk → Prop} (chunk : Chunk) :
    Keeps (Standing s known) (skipChunk chunk) := by
  unfold skipChunk
  exact leaves_soFar fun w _ => leaves_check (keeps_note _ _ _)

theorem keeps_walk (rounds : Nat) : Keeps (Standing s (Walk.Unfinished options)) (walk rounds) := by
  induction rounds with
  | zero => exact keeps_pure ()
  | succ rounds ih =>
    unfold walk
    refine leaves_get fun r => leaves_ite (keeps_pure ()) ?_
    refine leaves_bind keeps_readChunk fun chunk => ?_
    cases ChunkKind.ofName chunk.name with
    | header => exact leaves_bind (keeps_takeHeader chunk) fun _ => ih
    | data => exact leaves_bind (keeps_takeData chunk) fun _ => ih
    | terminator => exact keeps_modifyFound fun w h => ⟨h.options_eq, h.incomplete, h.sized⟩
    | palette => exact leaves_bind (keeps_skipChunk chunk) fun _ => ih
    | unknown => exact leaves_bind (keeps_skipChunk chunk) fun _ => ih

theorem leaves_concludeWalk : Leaves (Standing s (Walk.Unfinished options))
    (fun _ => Standing s (Walk.Finished options)) concludeWalk := by
  intro r held
  obtain ⟨notes, concluded⟩ := concludeWalk_eq r
  rw [concluded]
  cases lacks : r.found.lacking with
  | some e => exact .error held
  | none =>
    obtain ⟨⟨header, known⟩, -⟩ := Walk.lacking_eq_none_iff.mp lacks
    have sized := held.found.sized header known
    exact .ok ⟨held.place, held.found.options_eq, rfl, header, known, sized⟩

theorem leaves_decodeHeaders : Leaves (Standing s (Walk.Unfinished options))
    (fun _ => Standing s (Walk.Finished options)) decodeHeaders := by
  intro r held
  rw [decodeHeaders_eq held.found.incomplete]
  refine leaves_bind keeps_readSignature (fun _ => leaves_get fun r => ?_) r held
  exact leaves_bind (keeps_walk _) fun _ => leaves_concludeWalk

end Walking

end Png

/-! ### BMP -/

namespace Bmp

/-- What a reader without headers has found. Colours it may have read are of no use to it. -/
structure Unread (options : DecoderOptions) (c : Contents) : Prop where
  options_eq : c.options = options
  info : c.info = none

section Walking

variable {s : Stream} {options : DecoderOptions} {known : Contents → Prop}

theorem keeps_readField (width : Nat) : Keeps (Standing s known) (readField width) :=
  keeps_onStream (Stream.moves_readNat .little width)

theorem keeps_readSigned : Keeps (Standing s known) readSigned :=
  keeps_onStream (Stream.moves_readInt _)

theorem keeps_readColors (count : Nat) :
    Keeps (Standing s (Unread options)) (readColors count) := by
  induction count with
  | zero => exact keeps_pure ()
  | succ count ih =>
    refine leaves_bind (keeps_onStream (Stream.moves_readExact 4)) fun bytes => ?_
    exact leaves_bind (keeps_modifyFound fun c h => ⟨h.options_eq, h.info⟩) fun _ => ih

theorem keeps_readPalette (infoSize colorsUsed : Nat) :
    Keeps (Standing s (Unread options)) (readPalette infoSize colorsUsed) := by
  unfold readPalette
  refine leaves_optional (keeps_note _ _ _) ?_
  refine leaves_bind (keeps_onStream (Stream.moves_setPosition _)) fun _ => ?_
  exact leaves_bind (keeps_modifyFound fun c h => ⟨h.options_eq, h.info⟩) fun _ =>
    keeps_readColors _

theorem leaves_decodeHeaders : Leaves (Standing s (Unread options))
    (fun _ => Standing s fun c => ∃ info, c.info = some info) decodeHeaders := by
  unfold decodeHeaders
  refine leaves_soFar fun c unread => ?_
  rw [unread.info]
  refine leaves_bind (keeps_onStream (Stream.moves_readExact _)) fun found => leaves_check ?_
  refine leaves_bind (keeps_onStream (Stream.moves_skip 8)) fun _ => ?_
  refine leaves_bind (keeps_readField 4) fun dataOffset => ?_
  refine leaves_bind (keeps_readField 4) fun infoSize => leaves_check ?_
  refine leaves_bind keeps_readSigned fun signedWidth => ?_
  refine leaves_bind keeps_readSigned fun signedHeight => leaves_check ?_
  refine leaves_soFar fun c _ => leaves_check ?_
  refine leaves_bind (keeps_readField 2) fun planes => leaves_check ?_
  refine leaves_bind (keeps_readField 2) fun depth => leaves_check ?_
  refine leaves_bind (keeps_readField 4) fun compression => leaves_check ?_
  refine leaves_bind (keeps_onStream (Stream.moves_skip 12)) fun _ => ?_
  refine leaves_bind (keeps_readField 4) fun colorsUsed => ?_
  refine leaves_bind (keeps_note _ _ _) fun _ => ?_
  refine leaves_bind (keeps_note _ _ _) fun _ => ?_
  refine leaves_bind (keeps_note _ _ _) fun _ => ?_
  refine leaves_bind (keeps_note _ _ _) fun _ => ?_
  refine leaves_optional (keeps_readPalette _ _) ?_
  exact fun _ held => .ok ⟨held.place, _, rfl⟩

end Walking

end Bmp

/-! ### TGA -/

namespace Tga

/-- What a reader without a header has found. -/
structure Unread (options : DecoderOptions) (c : Contents) : Prop where
  options_eq : c.options = options
  info : c.info = none

section Walking

variable {s : Stream} {options : DecoderOptions} {known : Contents → Prop}

theorem keeps_readField (width : Nat) : Keeps (Standing s known) (readField width) :=
  keeps_onStream (Stream.moves_readNat .little width)

theorem leaves_decodeHeaders : Leaves (Standing s (Unread options))
    (fun _ => Standing s fun c => ∃ info, c.info = some info) decodeHeaders := by
  unfold decodeHeaders
  refine leaves_soFar fun c unread => ?_
  rw [unread.info]
  refine leaves_bind (keeps_readField 1) fun idLength => ?_
  refine leaves_bind (keeps_readField 1) fun mapType => ?_
  refine leaves_bind (keeps_readField 1) fun imageType => leaves_check (leaves_check ?_)
  refine leaves_bind (keeps_readField 2) fun firstEntry => ?_
  refine leaves_bind (keeps_readField 2) fun mapLength => ?_
  refine leaves_bind (keeps_readField 1) fun entryBits => ?_
  refine leaves_bind (keeps_readField 2) fun xOrigin => ?_
  refine leaves_bind (keeps_readField 2) fun yOrigin => ?_
  refine leaves_bind (keeps_readField 2) fun width => ?_
  refine leaves_bind (keeps_readField 2) fun height => ?_
  refine leaves_bind (keeps_readField 1) fun pixelDepth => ?_
  refine leaves_bind (keeps_readField 1) fun descriptor => leaves_check (leaves_check ?_)
  refine leaves_soFar fun c _ => leaves_check ?_
  refine leaves_optional (keeps_note _ _ _) (leaves_get fun r => ?_)
  refine leaves_bind (keeps_note _ _ _) fun _ => ?_
  refine leaves_bind (keeps_note _ _ _) fun _ => ?_
  refine leaves_bind (keeps_note _ _ _) fun _ => ?_
  refine leaves_bind (keeps_note _ _ _) fun _ => ?_
  exact fun _ held => .ok ⟨held.place, _, rfl⟩

end Walking

end Tga

/-! ### Asking again -/

section Asking

variable {δ σ : Type} {headers : ReadingM δ σ Unit} {decode : ReadingM δ σ Image} {r t : Reading σ}

/-- `t` is left of a reader that was asked for its headers, once or more often, always in vain. -/
inductive Refused (headers : ReadingM δ σ Unit) (r : Reading σ) : Reading σ → Prop where
  | once {e : δ} {t : Reading σ} (failed : headers r = .error e t) : Refused headers r t
  | again {e : δ} {t u : Reading σ} (before : Refused headers r t)
      (failed : headers t = .error e u) : Refused headers r u

theorem Refused.kept {kept : Reading σ → Prop} {done : Unit → Reading σ → Prop}
    (leaves : Leaves kept done headers) (start : kept r) (refused : Refused headers r t) :
    kept t := by
  induction refused with
  | once failed => exact (leaves _ start).of_error failed
  | again _ failed ih => exact (leaves _ ih).of_error failed

/--
A reader that reads on in `s`: it accepts only what `fits`, of what is ahead of where it stands, and
does not decode what it does not accept.
-/
structure ReadsOn (s : Stream) (headers : ReadingM δ σ Unit) (decode : ReadingM δ σ Image)
    (fits : List UInt8 → Prop) (r : Reading σ) : Prop where
  place : ∃ position, r.stream = s.seek position
  accepted : ∀ u, headers r = .ok () u → fits r.stream.ahead
  refused : ∀ e u, headers r = .error e u → decode r = .error e u

theorem Reading.Standing.sound {s : Stream} {known : σ → Prop} {r : Reading σ}
    (standing : Standing s known r) (sound : s.Sound) : r.stream.Sound := by
  obtain ⟨position, place⟩ := standing.place
  rw [place]
  exact sound.seek position

end Asking

theorem Png.front_of_decodeHeaders {r u : Decoder} (sound : r.stream.Sound)
    (incomplete : r.found.complete = false) (read : decodeHeaders r = .ok () u) :
    signature <+: r.stream.ahead := by
  rw [decodeHeaders_eq incomplete] at read
  obtain ⟨_, t, signed, -⟩ := bind_eq_ok_iff.mp read
  obtain ⟨rest, ahead⟩ := of_readSignature sound signed
  rw [ahead]
  exact List.prefix_append ..

theorem Bmp.front_of_decodeHeaders {r u : Decoder} (sound : r.stream.Sound)
    (unread : r.found.info = none) (read : decodeHeaders r = .ok () u) :
    magic <+: r.stream.ahead := by
  have reached : Reaches (fun _ _ => True) decodeHeaders r := ⟨(), u, read, trivial⟩
  unfold decodeHeaders at reached
  rw [reaches_soFar, if_neg (by simp [unread]),
    reaches_take (Stream.takes_readExact magic.length) sound, reaches_check] at reached
  obtain ⟨-, named, -⟩ := reached
  exact List.prefix_iff_eq_take.mpr (Decidable.not_not.mp named).symm

theorem Tga.accepts_iff {r : Decoder} {options : DecoderOptions} (sound : r.stream.Sound)
    (unread : Unread options r.found) :
    (∃ u, decodeHeaders r = .ok () u) ↔ Readable options r.stream.ahead := by
  have header := reaches_decodeHeaders (fun _ _ => True) sound unread.info
  rw [unread.options_eq, and_true] at header
  rw [← header]
  constructor
  · rintro ⟨u, read⟩
    exact ⟨(), u, read, trivial⟩
  · rintro ⟨_, u, read, -⟩
    exact ⟨u, read⟩

/--
A reader whose headers were refused, once or more often, stands somewhere in its stream, and asked
again it reads on from there. What it then accepts must start as a stream of its format does; for
TGA that is all it takes. Until its headers are accepted a BMP or TGA reader shows nothing. What a
PNG reader shows is the size in a header chunk that it took, of an image that is not empty and that
its options admit.
-/
theorem refused_reads_on {s : Stream} (sound : s.Sound) (inflate : Png.Inflater)
    (options : DecoderOptions) :
    (∀ r, Refused Png.decodeHeaders (Png.Decoder.start s options) r →
      ReadsOn s Png.decodeHeaders (Png.decode inflate) (Png.signature <+: ·) r ∧
      ∀ width height, Png.Decoder.dimensions r = some (width, height) →
        0 < width ∧ 0 < height ∧ options.refuses width height = false) ∧
    (∀ r, Refused Bmp.decodeHeaders (Bmp.Decoder.start s options) r →
      ReadsOn s Bmp.decodeHeaders Bmp.decode (Bmp.magic <+: ·) r ∧
      Bmp.Decoder.dimensions r = none ∧ Bmp.Decoder.depth r = none) ∧
    ∀ r, Refused Tga.decodeHeaders (Tga.Decoder.start s options) r →
      ReadsOn s Tga.decodeHeaders Tga.decode (Tga.Readable options) r ∧
      Tga.Decoder.dimensions r = none ∧
      (Tga.Readable options r.stream.ahead → ∃ u, Tga.decodeHeaders r = .ok () u) := by
  refine ⟨fun r refused => ?_, fun r refused => ?_, fun r refused => ?_⟩
  · have standing := refused.kept Png.leaves_decodeHeaders
      (standing_start ⟨rfl, rfl, fun _ known => by cases known⟩)
    have incomplete := standing.found.incomplete
    refine ⟨⟨standing.place, fun u => ?_, (Png.headed inflate r).refused⟩,
      fun width height shown => ?_⟩
    · exact Png.front_of_decodeHeaders (standing.sound sound) incomplete
    · obtain ⟨header, known, same⟩ := Option.map_eq_some_iff.mp shown
      have sized := standing.found.sized header known
      cases same
      have filled := sized.filled
      exact ⟨by omega, by omega, Bool.eq_false_iff.mpr sized.within⟩
  · have standing := refused.kept Bmp.leaves_decodeHeaders (standing_start ⟨rfl, rfl⟩)
    have info := standing.found.info
    refine ⟨⟨standing.place, fun u => ?_, (Bmp.headed r).refused⟩, ?_, ?_⟩
    · exact Bmp.front_of_decodeHeaders (standing.sound sound) info
    · rw [Bmp.Decoder.dimensions, info, Option.map_none]
    · rw [Bmp.Decoder.depth, info, Option.map_none]
  · have standing := refused.kept Tga.leaves_decodeHeaders (standing_start ⟨rfl, rfl⟩)
    have accepts := Tga.accepts_iff (standing.sound sound) standing.found
    refine ⟨⟨standing.place, fun u read => ?_, (Tga.headed r).refused⟩, ?_, accepts.mpr⟩
    · exact accepts.mp ⟨u, read⟩
    · rw [Tga.Decoder.dimensions, standing.found.info, Option.map_none]

/-- Three bytes that name an unknown kind of image, and a TGA behind them. -/
theorem refused_reads_on_targa :
    let s := Stream.ofBytes ([0, 0, 0] ++ ImageFormat.onePixelTarga.source.content)
    ∃ r u, Refused Tga.decodeHeaders (Tga.Decoder.start s .usual) r ∧
      Tga.Decoder.dimensions r = none ∧ Tga.decodeHeaders r = .ok () u := by
  intro s
  have refused : Refused Tga.decodeHeaders (Tga.Decoder.start s .usual)
      ⟨s.seek 3, ⟨.usual, none⟩, []⟩ := .once (e := .unsupportedImageType 0) rfl
  obtain ⟨-, -, targa⟩ := refused_reads_on (s := s) (Stream.sound_ofBytes (by decide)) .zlib .usual
  obtain ⟨-, nothing, accepts⟩ := targa _ refused
  obtain ⟨u, read⟩ := accepts
    ⟨by decide, by decide, by decide, by decide, by decide, by decide, by decide⟩
  exact ⟨_, u, refused, nothing, read⟩

/-- The start of a PNG whose second chunk is damaged, and behind it a signature and a data chunk. -/
def resumablePng : Stream :=
  .ofBytes [137, 80, 78, 71, 13, 10, 26, 10,
    0, 0, 0, 13, 73, 72, 68, 82, 0, 0, 0, 1, 0, 0, 0, 1, 8, 6, 0, 0, 0, 31, 21, 196, 137,
    0, 0, 0, 0, 73, 68, 65, 84, 53, 175, 6, 31,
    137, 80, 78, 71, 13, 10, 26, 10,
    0, 0, 0, 16, 73, 68, 65, 84, 120, 1, 1, 5, 0, 250, 255, 0, 1, 2, 3, 4, 0, 25, 0, 11,
    185, 176, 227, 235,
    0, 0, 0, 0, 73, 69, 78, 68, 174, 66, 96, 130]

/-- It is refused, shows a size all the same, and is accepted when it is asked for again. -/
theorem resumablePng_accepted_after_failure :
    ∃ e r u, Png.decodeHeaders (Png.Decoder.start resumablePng .usual) = .error e r ∧
      Png.Decoder.dimensions r = some (1, 1) ∧ Png.decodeHeaders r = .ok () u := by
  have computed :
      let first := Png.decodeHeaders (Png.Decoder.start resumablePng .usual)
      (outcomeOf first).isOk = false ∧ Png.Decoder.dimensions (leftBy first) = some (1, 1) ∧
        (outcomeOf (Png.decodeHeaders (leftBy first))).isOk = true := by
    decide +kernel
  cases first : Png.decodeHeaders (Png.Decoder.start resumablePng .usual) with
  | ok a r =>
    rw [first] at computed
    cases computed.1
  | error e r =>
    rw [first] at computed
    obtain ⟨-, shown, accepted⟩ := computed
    cases again : Png.decodeHeaders r with
    | ok a u => exact ⟨e, r, u, rfl, shown, again⟩
    | error e u =>
      rw [leftBy, again] at accepted
      cases accepted

end PackageAssets
