import PackageAssets.Proofs.Format.Settled
import PackageAssets.Proofs.Stream.Overlooked

/-!
# Where a file starts

A PNG or a TGA reader counts from where its stream stands. A reader that starts
somewhere in a window and a reader of the window that starts there answer every
sequence of calls alike. Bits that are pending on the first stream make no
difference: both formats are read in whole bytes.
-/
namespace PackageAssets

open Reading

variable {pending : PendingBits}

/-! ### Reading overlooks pending bits -/

namespace Png

theorem overlooks_readSignature : Overlooks (withPending pending) readSignature := by
  unfold readSignature
  refine (overlooks_onStream (Stream.overlooks_readBytes _)).bind fun found => ?_
  exact overlooks_check (overlooks_ite (overlooks_throw _) (overlooks_pure ()))

theorem overlooks_readChunk : Overlooks (withPending pending) readChunk := by
  have named (name : List UInt8) (length : Nat) (data : Stream) (stored : UInt32) :
      Overlooks (withPending pending) (do
        Reading.note .trace .pngReader s!"Chunk {Text.ofBytes name} of {length} bytes"
        return ⟨name, length, data, stored⟩ : DecoderM Chunk) :=
    (overlooks_note _ _ _).bind fun _ => overlooks_pure _
  unfold readChunk
  refine (overlooks_onStream (Stream.overlooks_readNat .big 4)).bind fun length => ?_
  refine (overlooks_onStream (Stream.overlooks_readExact 4)).bind fun name => ?_
  refine (overlooks_onStream (Stream.overlooks_readStream length)).bind fun data => ?_
  refine (overlooks_onStream (Stream.overlooks_readNat .big 4)).bind fun stored => ?_
  refine overlooks_soFar.bind fun w => overlooks_ite ?_ (named _ _ _ _)
  cases checksum name data with
  | error e _ => exact overlooks_throw _
  | ok found _ => exact overlooks_check (named _ _ _ _)

theorem overlooks_takeHeader (chunk : Chunk) :
    Overlooks (withPending pending) (takeHeader chunk) := by
  unfold takeHeader
  refine overlooks_soFar.bind fun w => overlooks_check (overlooks_check ?_)
  cases parseHeader w.options chunk.data with
  | error e => exact overlooks_throw e
  | ok read =>
    refine (overlooks_note _ _ _).bind fun _ => ?_
    refine (overlooks_note _ _ _).bind fun _ => ?_
    refine (overlooks_note _ _ _).bind fun _ => ?_
    exact (overlooks_note _ _ _).bind fun _ => overlooks_modifyFound _

theorem overlooks_takeData (chunk : Chunk) : Overlooks (withPending pending) (takeData chunk) := by
  unfold takeData
  refine overlooks_soFar.bind fun w => overlooks_check ?_
  cases Stream.readRemaining chunk.data with
  | error e _ => exact overlooks_throw _
  | ok payload _ => exact overlooks_modifyFound _

theorem overlooks_skipChunk (chunk : Chunk) :
    Overlooks (withPending pending) (skipChunk chunk) := by
  unfold skipChunk
  exact overlooks_soFar.bind fun w => overlooks_check (overlooks_note _ _ _)

theorem overlooks_walk (rounds : Nat) : Overlooks (withPending pending) (walk rounds) := by
  induction rounds with
  | zero => exact overlooks_pure ()
  | succ rounds ih =>
    unfold walk
    refine overlooks_get (fun _ => rfl) fun r => overlooks_ite (overlooks_pure ()) ?_
    refine overlooks_readChunk.bind fun chunk => ?_
    cases ChunkKind.ofName chunk.name with
    | header => exact (overlooks_takeHeader chunk).bind fun _ => ih
    | data => exact (overlooks_takeData chunk).bind fun _ => ih
    | terminator => exact overlooks_modifyFound _
    | palette => exact (overlooks_skipChunk chunk).bind fun _ => ih
    | unknown => exact (overlooks_skipChunk chunk).bind fun _ => ih

theorem overlooks_decodeHeaders : Overlooks (withPending pending) decodeHeaders := by
  unfold decodeHeaders
  refine overlooks_soFar.bind fun w => overlooks_ite (overlooks_pure ()) ?_
  refine overlooks_readSignature.bind fun _ => ?_
  refine overlooks_get (fun _ => rfl) fun r => (overlooks_walk _).bind fun _ => ?_
  refine overlooks_soFar.bind fun w => overlooks_check (overlooks_check ?_)
  refine overlooks_ite (overlooks_check ?_) (overlooks_modifyFound _)
  exact (overlooks_note _ _ _).bind fun _ => overlooks_modifyFound _

theorem overlooks_decode (inflate : Inflater) :
    Overlooks (withPending pending) (decode inflate) := by
  unfold decode
  refine overlooks_decodeHeaders.bind fun _ => overlooks_soFar.bind fun w => ?_
  cases imageOf inflate w with
  | error e => exact overlooks_throw e
  | ok image => exact overlooks_pure image

end Png

namespace Tga

theorem overlooks_readField (width : Nat) : Overlooks (withPending pending) (readField width) :=
  overlooks_onStream (Stream.overlooks_readNat .little width)

theorem overlooks_decodeHeaders : Overlooks (withPending pending) decodeHeaders := by
  unfold decodeHeaders
  refine overlooks_soFar.bind fun c => overlooks_ite (overlooks_pure ()) ?_
  refine (overlooks_readField 1).bind fun idLength => ?_
  refine (overlooks_readField 1).bind fun mapType => ?_
  refine (overlooks_readField 1).bind fun imageType => overlooks_check (overlooks_check ?_)
  refine (overlooks_readField 2).bind fun firstEntry => ?_
  refine (overlooks_readField 2).bind fun mapLength => ?_
  refine (overlooks_readField 1).bind fun entryBits => ?_
  refine (overlooks_readField 2).bind fun xOrigin => ?_
  refine (overlooks_readField 2).bind fun yOrigin => ?_
  refine (overlooks_readField 2).bind fun width => ?_
  refine (overlooks_readField 2).bind fun height => ?_
  refine (overlooks_readField 1).bind fun pixelDepth => ?_
  refine (overlooks_readField 1).bind fun descriptor => overlooks_check (overlooks_check ?_)
  refine overlooks_soFar.bind fun c => overlooks_check ?_
  refine overlooks_optional (overlooks_note _ _ _) (overlooks_get (fun _ => rfl) fun r => ?_)
  refine (overlooks_note _ _ _).bind fun _ => ?_
  refine (overlooks_note _ _ _).bind fun _ => ?_
  refine (overlooks_note _ _ _).bind fun _ => ?_
  exact (overlooks_note _ _ _).bind fun _ => overlooks_modifyFound _

theorem overlooks_readImage (info : Info) : Overlooks (withPending pending) (readImage info) := by
  unfold readImage
  refine (overlooks_onStream (Stream.overlooks_setPosition _)).bind fun _ => ?_
  refine (overlooks_onStream (Stream.overlooks_readStream _)).bind fun view => ?_
  cases Stream.readRemaining view with
  | error e _ => exact overlooks_throw _
  | ok data _ =>
    dsimp only
    split
    · exact overlooks_throw _
    · exact overlooks_pure _

theorem overlooks_decode : Overlooks (withPending pending) decode := by
  rw [decode_eq]
  refine overlooks_decodeHeaders.bind fun _ => overlooks_soFar.bind fun c => ?_
  cases c.info with
  | none => exact overlooks_throw _
  | some info => exact overlooks_readImage info

end Tga

/-! ### Calls -/

section Calls

variable {ε σ μ ρ α : Type}

/-- A reader is asked for something, or shows what it has found. -/
inductive ImageCall where
  | ask (request : ImageRequest)
  | look

/-- The answer to a call: that to the request, or what is shown. -/
def ImageCall.run (headers : ReadingM ε σ Unit) (image : ReadingM ε σ Image)
    (shown : Reading σ → μ) : ImageCall → ReadingM ε σ (Option Image ⊕ μ)
  | .ask request => do return .inl (← ImageRequest.ask headers image request)
  | .look => do return .inr (shown (← get))

/-- The answers to calls, and the notes up to the last one. -/
def Reading.transcript (run : ρ → ReadingM ε σ α) (calls : List ρ) (r : Reading σ) :
    List (Except ε α) × List Note :=
  ((askAll run calls r).1, (askAll run calls r).2.notes)

variable {headers : ReadingM ε σ Unit} {image : ReadingM ε σ Image} {shown : Reading σ → μ}

theorem ImageCall.run_inStep {admitted : ε → Prop} {kept : Reading σ → Reading σ → Prop}
    (asked : ∀ request r r', kept r r' → InStep admitted kept (Equally kept)
      (ImageRequest.ask headers image request r) (ImageRequest.ask headers image request r'))
    (alike : ∀ r r', kept r r' → shown r = shown r') (call : ImageCall) (r r' : Reading σ)
    (together : kept r r') :
    InStep admitted kept (Equally kept) (run headers image shown call r)
      (run headers image shown call r') := by
  cases call with
  | ask request =>
    exact (asked request r r' together).next fun answer _ _ together =>
      .pure together (Sum.inl answer)
  | look => exact .ok ⟨congrArg Sum.inr (alike r r' together), together⟩

theorem ImageCall.overlooks_run (blindHeaders : Overlooks (withPending pending) headers)
    (blindImage : Overlooks (withPending pending) image)
    (blind : ∀ r, shown (r.withPending pending) = shown r) (call : ImageCall) :
    Overlooks (withPending pending) (run headers image shown call) := by
  cases call with
  | ask request =>
    cases request with
    | headers =>
      exact (blindHeaders.bind fun _ => overlooks_pure _).bind fun _ => overlooks_pure _
    | image => exact (blindImage.bind fun _ => overlooks_pure _).bind fun _ => overlooks_pure _
  | look =>
    refine overlooks_get (fun r => ?_) fun _ => overlooks_pure _
    rw [blind]

theorem transcript_withPending {run : ρ → ReadingM ε σ α}
    (overlooks : ∀ call, Overlooks (withPending pending) (run call)) (calls : List ρ)
    (r : Reading σ) : transcript run calls (r.withPending pending) = transcript run calls r := by
  rw [transcript, askAll_overlooks overlooks]
  rfl

theorem transcript_eq {run : ρ → ReadingM ε σ α} {admitted : ε → Prop}
    {streams : Stream → Stream → Prop} {finds : σ → σ → Prop} {r r' : Reading σ}
    (step : ∀ call r r', Alike streams finds r r' → InStep admitted (Alike streams finds)
      (Equally (Alike streams finds)) (run call r) (run call r'))
    (start : Alike streams finds r r') (calls : List ρ) :
    transcript run calls r = transcript run calls r' := by
  obtain ⟨answers, together, -⟩ := askAll_inStep step calls start
  exact Prod.ext answers together.notes

end Calls

/-- A PNG reader is called. It shows the header and the size in it. -/
def Png.call (inflate : Inflater) :
    ImageCall → DecoderM (Option Image ⊕ Option Header × Option (Nat × Nat)) :=
  ImageCall.run decodeHeaders (decode inflate) Decoder.metadata

/-- A TGA reader is called. It shows the size of the image. -/
def Tga.call : ImageCall → DecoderM (Option Image ⊕ Option (Nat × Nat)) :=
  ImageCall.run decodeHeaders decode Decoder.dimensions

/-! ### The end of a window -/

section Positions

variable {p : Nat} {s t : Stream} (twins : Stream.Twins p s t) (beside : Stream.Beside p s t s t)
  (options : DecoderOptions) (calls : List ImageCall)

include twins beside

theorem Png.transcript_beside (inflate : Inflater) :
    transcript (call inflate) calls (Decoder.start s options) =
      transcript (call inflate) calls (Decoder.start t options) := by
  have start : Together p s t (Decoder.start s options) (Decoder.start t options) :=
    ⟨beside, ⟨rfl, fun complete => nomatch complete⟩, rfl⟩
  refine transcript_eq (ImageCall.run_inStep (ask_inStep twins inflate) fun r r' together => ?_)
    start calls
  unfold Decoder.metadata Decoder.dimensions
  rw [together.found.same]

theorem Tga.transcript_beside :
    transcript call calls (Decoder.start s options) =
      transcript call calls (Decoder.start t options) := by
  have start : Together p s t (Decoder.start s options) (Decoder.start t options) :=
    ⟨beside, ⟨rfl, rfl, fun _ none => nomatch none⟩, rfl⟩
  refine transcript_eq (ImageCall.run_inStep (ask_inStep twins) fun r r' together => ?_) start calls
  unfold Decoder.dimensions
  rw [together.found.info, Option.map_map]
  rfl

end Positions

/-- The view from a place to the end of a window shows what the window shows from there on. -/
theorem Stream.twins_rest {c : Stream} (sound : c.Sound) {p : Nat} (inside : p ≤ c.length)
    (pending : PendingBits) :
    Twins p (c.seek p) ((c.part p c.length).withPending pending) :=
  ⟨sound.seek p, (sound_part sound inside (Nat.le_refl _)).moved 0 pending, inside,
    (visible_rest sound p).symm⟩

/--
A reader of a PNG or a TGA that starts at a place in a window, and one that starts on the view from
there, give the same transcript of all calls: the same answers to requests for the headers and the
image, in any order and after failures, the same header and size whenever these are looked at, and
the same notes.
-/
theorem reads_from_any_place {c : Stream} (sound : c.Sound) {p : Nat} (inside : p ≤ c.length)
    (inflate : Png.Inflater) (options : DecoderOptions) :
    ∃ rest, c.slice (.included p) .unbounded = .ok rest ∧ rest.position = 0 ∧
      ∀ calls,
        transcript (Png.call inflate) calls (Png.Decoder.start (c.seek p) options) =
          transcript (Png.call inflate) calls (Png.Decoder.start rest options) ∧
        transcript Tga.call calls (Tga.Decoder.start (c.seek p) options) =
          transcript Tga.call calls (Tga.Decoder.start rest options) := by
  refine ⟨c.part p c.length, Stream.slice_from inside, rfl, fun calls => ?_⟩
  -- the view has no pending bits; with those of the stream it stands beside it
  have twins := Stream.twins_rest sound inside c.cursor.pending
  have beside : Stream.Beside p (c.seek p) ((c.part p c.length).withPending c.cursor.pending)
      (c.seek p) ((c.part p c.length).withPending c.cursor.pending) := .intro 0 c.cursor.pending
  constructor
  · have blind (call : ImageCall) :
        Overlooks (withPending c.cursor.pending) (Png.call inflate call) :=
      ImageCall.overlooks_run Png.overlooks_decodeHeaders (Png.overlooks_decode inflate)
        (fun _ => rfl) call
    rw [Png.transcript_beside twins beside]
    exact transcript_withPending blind calls (Png.Decoder.start (c.part p c.length) options)
  · have blind (call : ImageCall) : Overlooks (withPending c.cursor.pending) (Tga.call call) :=
      ImageCall.overlooks_run Tga.overlooks_decodeHeaders Tga.overlooks_decode (fun _ => rfl) call
    rw [Tga.transcript_beside twins beside]
    exact transcript_withPending blind calls (Tga.Decoder.start (c.part p c.length) options)

/-- A TGA that is cut short, behind two other bytes of a stream with pending bits. -/
def cutTargaBehind : Stream := (Stream.ofBytes ([9, 9] ++ cutTarga)).withPending ⟨5, 3⟩

theorem reads_from_any_place_cutTarga :
    ∃ rest, cutTargaBehind.slice (.included 2) .unbounded = .ok rest ∧
      (transcript Tga.call [.look, .ask .image, .look] (Tga.Decoder.start rest .usual)).1 =
        [.ok (.inr none), .error (.io (.notEnough 3 1)), .ok (.inr (some (1, 1)))] := by
  have sound : cutTargaBehind.Sound := (Stream.sound_ofBytes (by decide)).moved 0 ⟨5, 3⟩
  obtain ⟨rest, made, -, same⟩ := reads_from_any_place sound (p := 2) (by decide) .zlib .usual
  refine ⟨rest, made, ?_⟩
  rw [← (same _).2]
  rfl

end PackageAssets
