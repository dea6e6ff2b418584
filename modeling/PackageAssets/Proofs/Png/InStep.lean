import PackageAssets.Proofs.Image.Requests
import PackageAssets.Proofs.Png.HeaderChunk
import PackageAssets.Proofs.Png.Shape
import PackageAssets.Proofs.Stream.Twins

/-!
# Reading PNG in step

A walk never looks back, so over the end of a window and over a window on just
these bytes it finds the same chunks or fails alike. Views of payloads are
views of the same bytes, and their checksums, headers and data are the same.
Every failure is one of the data; behind headers that were read it comes from
the compressed data or from what was inflated.
-/
namespace PackageAssets.Png

/-- What can go wrong with an image once its header is known. -/
inductive PixelFailure (header : Header) : Error → Prop where
  | inflate (cause : Deflate.InflateError) : PixelFailure header (.inflate cause)
  | cells {e : Error} (failure : CellFailure header e) : PixelFailure header e

theorem PixelFailure.ofData {header : Header} {e : Error} (failure : PixelFailure header e) :
    OfData Error.kind e := by
  cases failure with
  | inflate => exact Or.inl rfl
  | cells failure =>
    cases failure with
    | large => exact Or.inl rfl
    | short => exact Or.inr rfl
    | filter => exact Or.inl rfl

/-- Image data of a known header makes an image, or it is refused. -/
theorem imageOf_cases (inflate : Inflater) {w : Walk} {header : Header}
    (known : w.header = some header) :
    (∃ image, imageOf inflate w = .ok image) ∨
      ∃ e, imageOf inflate w = .error e ∧ PixelFailure header e := by
  unfold imageOf
  rw [known]
  cases inflated : inflate w.options.confirmChecksums w.compressed with
  | error cause => exact Or.inr ⟨_, rfl, .inflate cause⟩
  | ok data =>
    dsimp only
    rcases cellsOfData_cases header w.options.order data with
      ⟨cells, read, size⟩ | ⟨e, read, failure⟩
    · have filled : ∃ image, Image.ofPixels? header.width header.height cells = some image :=
        ⟨_, dif_pos size⟩
      obtain ⟨image, made⟩ := filled
      rw [read]
      dsimp only
      rw [made]
      exact Or.inl ⟨image, rfl⟩
    · rw [read]
      exact Or.inr ⟨e, rfl, .cells failure⟩

/-- A header that is refused is one of another format. -/
theorem HeaderFields.kind_of_judge {options : DecoderOptions} {f : HeaderFields} {e : Error}
    (refused : f.judge options = .error e) : e.kind = .format := by
  unfold judge at refused
  split at refused
  · cases refused
    rfl
  split at refused
  · cases refused
    rfl
  split at refused
  · cases refused
    rfl
  split at refused
  · cases refused
    rfl
  split at refused
  · cases refused
    rfl
  split at refused
  · cases refused
    rfl
  split at refused
  · cases refused
    rfl
  · cases refused

theorem readChunk_confirm : readChunk = (do
    let length ← Reading.onStream (Stream.readNat .big 4)
    let name ← Reading.onStream (Stream.readExact 4)
    let data ← Reading.onStream (Stream.readStream length)
    let stored ← Reading.onStream (Stream.readNat .big 4)
    confirmChunk ⟨name, length, data, UInt32.ofNat stored⟩ : DecoderM Chunk) := rfl

/-- What is left to do once the headers were read. -/
def readFound (inflate : Inflater) : DecoderM Image := do
  match imageOf inflate (← Reading.soFar) with
  | .error e => throw e
  | .ok image => return image

theorem decode_eq (inflate : Inflater) :
    decode inflate = (decodeHeaders >>= fun _ => readFound inflate) := rfl

theorem readFound_eq (inflate : Inflater) (r : Decoder) :
    readFound inflate r = match imageOf inflate r.found with
      | .error e => .error e r
      | .ok image => .ok image r := by
  rw [readFound, bind_of_ok (Reading.soFar_eq_ok r)]
  cases imageOf inflate r.found <;> rfl

theorem ofData_of_short (e : IoError) (short : Stream.Short e) : OfData Error.kind (.io e) :=
  Stream.ofData_of_short (fun _ => rfl) e short

/-- Two readers found the same, and a finished walk found a header. -/
structure FoundAlike (v w : Walk) : Prop where
  same : v = w
  headed : w.complete = true → ∃ header, w.header = some header

/-- Two readers, each on its stream, that have the same before them and behind them. -/
abbrev Together (p : Nat) (s₀ t₀ : Stream) : Decoder → Decoder → Prop :=
  Reading.Alike (Stream.Beside p s₀ t₀) FoundAlike

/-- Two readers' views of one chunk. -/
structure ChunkAlike (c d : Chunk) : Prop where
  name : c.name = d.name
  length : c.length = d.length
  checksum : c.checksum = d.checksum
  view : Stream.SameView c.data d.data
  size : c.data.ahead.length = c.length

section

variable {p : Nat} {s₀ t₀ : Stream} {r r' : Decoder} (twins : Stream.Twins p s₀ t₀)
  (alike : Together p s₀ t₀ r r')

include twins alike

/-! ### Chunks -/

theorem readSignature_inStep :
    InStep (OfData Error.kind) (Together p s₀ t₀) (Equally (Together p s₀ t₀)) (readSignature r)
      (readSignature r') := by
  unfold readSignature
  refine (Reading.onStream_equally alike ofData_of_short
    (Stream.readBytes_inStep twins alike.stream signature.length)).next fun found r r' alike => ?_
  refine .ite (fun _ => .stop (ofData rfl) alike) fun _ => ?_
  exact .ite (fun _ => .error (ofData_truncated rfl) alike) fun _ => .pure alike ()

omit twins in
/-- A chunk whose bytes were read is taken or refused for its checksum. -/
theorem confirmChunk_inStep {c d : Chunk} (same : ChunkAlike c d) :
    InStep (OfData Error.kind) (Together p s₀ t₀)
      (fun c d r r' => ChunkAlike c d ∧ Together p s₀ t₀ r r') (confirmChunk c r)
      (confirmChunk d r') := by
  obtain ⟨name, length, v, stored⟩ := c
  obtain ⟨_, _, w, _⟩ := d
  obtain ⟨rfl, rfl, rfl, view, size⟩ := same
  have kept {r r' : Decoder} (alike : Together p s₀ t₀ r r') :
      InStep (OfData Error.kind) (Together p s₀ t₀)
        (fun c d r r' => ChunkAlike c d ∧ Together p s₀ t₀ r r')
        ((do
          Reading.note .trace .pngReader s!"Chunk {Text.ofBytes name} of {length} bytes"
          return ⟨name, length, v, stored⟩ : DecoderM Chunk) r)
        ((do
          Reading.note .trace .pngReader s!"Chunk {Text.ofBytes name} of {length} bytes"
          return ⟨name, length, w, stored⟩ : DecoderM Chunk) r') :=
    (Reading.note_inStep _ _ _ alike).next fun _ _ _ alike =>
      .ok ⟨⟨rfl, rfl, rfl, view, size⟩, alike⟩
  unfold confirmChunk
  refine (Reading.soFar_inStep alike).bind ?_
  rintro _ _ r r' ⟨rfl, rfl, alike⟩
  rw [← alike.found.same]
  refine .ite (fun _ => ?_) fun _ => kept alike
  dsimp only
  rw [checksum_eq view.twins.left, checksum_eq view.twins.right, view.beside.ahead_eq view.twins]
  exact .ite (fun _ => .stop (ofData rfl) alike) fun _ => kept alike

theorem readChunk_inStep :
    InStep (OfData Error.kind) (Together p s₀ t₀)
      (fun c d r r' => ChunkAlike c d ∧ Together p s₀ t₀ r r') (readChunk r) (readChunk r') := by
  rw [readChunk_confirm]
  refine (Reading.takes_inStep (Stream.takes_readNat .big 4) twins alike
    ofData_of_short).next fun length r r' alike => ?_
  have named := (Stream.takes_readExact 4).inStep_taken twins alike.stream
  refine (Reading.onStream_inStep alike ofData_of_short named).bind ?_
  rintro name _ r r' ⟨⟨-, inside, rfl, stream⟩, found, notes⟩
  have alike : Together p s₀ t₀ r r' := ⟨stream, found, notes⟩
  -- a view of no bytes is there because the name was
  have ready : 0 < length ∨ r'.stream.position ≤ r'.stream.length := Or.inr (inside (by decide))
  have viewed := Stream.readStream_inStep twins alike.stream ready
  refine (Reading.onStream_inStep alike ofData_of_short viewed).bind ?_
  rintro v w r r' ⟨⟨⟨view, size⟩, stream⟩, found, notes⟩
  have alike : Together p s₀ t₀ r r' := ⟨stream, found, notes⟩
  refine (Reading.takes_inStep (Stream.takes_readNat .big 4) twins alike
    ofData_of_short).next fun stored r r' alike => ?_
  exact confirmChunk_inStep alike ⟨rfl, rfl, rfl, view, size⟩

/-! ### What is done with a chunk -/

omit twins in
theorem takeHeader_inStep {c d : Chunk} (same : ChunkAlike c d) :
    InStep (OfData Error.kind) (Together p s₀ t₀) (Equally (Together p s₀ t₀)) (takeHeader c r)
      (takeHeader d r') := by
  unfold takeHeader
  refine (Reading.soFar_inStep alike).bind ?_
  rintro _ _ r r' ⟨rfl, rfl, alike⟩
  rw [← alike.found.same, ← same.length]
  refine .ite (fun _ => .stop (ofData rfl) alike) fun _ => ?_
  refine .ite (fun _ => .stop (ofData rfl) alike) fun thirteen => ?_
  have size : c.data.ahead.length = 13 := same.size.trans (Decidable.not_not.mp thirteen)
  obtain ⟨f, known⟩ := HeaderFields.exists_bytes size
  have ahead := same.view.beside.ahead_eq same.view.twins
  rw [parseHeader_eq _ same.view.twins.left known,
    parseHeader_eq _ same.view.twins.right (ahead.symm.trans known)]
  cases judged : f.judge r.found.options with
  | error e => exact .error (ofData (HeaderFields.kind_of_judge judged)) alike
  | ok header =>
    refine (Reading.note_inStep _ _ _ alike).next fun _ r r' alike => ?_
    refine (Reading.note_inStep _ _ _ alike).next fun _ r r' alike => ?_
    refine (Reading.note_inStep _ _ _ alike).next fun _ r r' alike => ?_
    refine (Reading.note_inStep _ _ _ alike).next fun _ r r' alike => ?_
    exact Reading.modifyFound_inStep alike ⟨by rw [alike.found.same], fun _ => ⟨header, rfl⟩⟩

omit twins in
theorem takeData_inStep {c d : Chunk} (same : ChunkAlike c d) :
    InStep (OfData Error.kind) (Together p s₀ t₀) (Equally (Together p s₀ t₀)) (takeData c r)
      (takeData d r') := by
  unfold takeData
  refine (Reading.soFar_inStep alike).bind ?_
  rintro _ _ r r' ⟨rfl, rfl, alike⟩
  rw [← alike.found.same]
  refine .ite (fun _ => .stop (ofData rfl) alike) fun _ => ?_
  rw [Stream.readRemaining_eq same.view.twins.left, Stream.readRemaining_eq same.view.twins.right,
    same.view.beside.ahead_eq same.view.twins]
  exact Reading.modifyFound_inStep alike ⟨by rw [alike.found.same], alike.found.headed⟩

omit twins in
theorem skipChunk_inStep {c d : Chunk} (same : ChunkAlike c d) :
    InStep (OfData Error.kind) (Together p s₀ t₀) (Equally (Together p s₀ t₀)) (skipChunk c r)
      (skipChunk d r') := by
  unfold skipChunk
  refine (Reading.soFar_inStep alike).bind ?_
  rintro _ _ r r' ⟨rfl, rfl, alike⟩
  rw [← alike.found.same, ← same.name, ← same.length, ← same.checksum]
  refine .ite (fun _ => .stop (ofData rfl) alike) fun _ => ?_
  exact Reading.note_inStep _ _ _ alike

/-! ### The walk -/

theorem walk_inStep (rounds : Nat) :
    InStep (OfData Error.kind) (Together p s₀ t₀) (Equally (Together p s₀ t₀)) (walk rounds r)
      (walk rounds r') := by
  induction rounds generalizing r r' with
  | zero => exact .pure alike ()
  | succ rounds ih =>
    unfold walk
    refine (Reading.get_inStep alike).bind ?_
    rintro r r' _ _ ⟨rfl, rfl, alike⟩
    rw [Stream.atEnd, Stream.atEnd, alike.stream.remaining_eq twins]
    refine .ite (fun _ => .pure alike ()) fun _ => ?_
    refine (readChunk_inStep twins alike).bind ?_
    rintro c d r r' ⟨same, alike⟩
    rw [← same.name]
    cases ChunkKind.ofName c.name with
    | header => exact (takeHeader_inStep alike same).next fun _ _ _ alike => ih alike
    | data => exact (takeData_inStep alike same).next fun _ _ _ alike => ih alike
    | terminator =>
      exact Reading.modifyFound_inStep alike ⟨by rw [alike.found.same], alike.found.headed⟩
    | palette => exact (skipChunk_inStep alike same).next fun _ _ _ alike => ih alike
    | unknown => exact (skipChunk_inStep alike same).next fun _ _ _ alike => ih alike

/-- The headers are read in step, and then there is one. -/
theorem decodeHeaders_inStep :
    InStep (OfData Error.kind) (Together p s₀ t₀)
      (fun _ _ r r' => Together p s₀ t₀ r r' ∧ ∃ header, r.found.header = some header)
      (decodeHeaders r) (decodeHeaders r') := by
  unfold decodeHeaders
  refine (Reading.soFar_inStep alike).bind ?_
  rintro _ _ r r' ⟨rfl, rfl, alike⟩
  rw [← alike.found.same]
  refine .ite (fun complete => .ok ⟨alike, ?_⟩) fun _ => ?_
  · rw [alike.found.same] at complete ⊢
    exact alike.found.headed complete
  refine (readSignature_inStep twins alike).next fun _ r r' alike => ?_
  refine (Reading.get_inStep alike).bind ?_
  rintro r r' _ _ ⟨rfl, rfl, alike⟩
  rw [alike.stream.remaining_eq twins]
  refine (walk_inStep twins alike _).next fun _ r r' alike => ?_
  refine (Reading.soFar_inStep alike).bind ?_
  rintro _ _ r r' ⟨rfl, rfl, alike⟩
  rw [← alike.found.same]
  refine .ite (fun _ => .stop (ofData rfl) alike) fun headed => ?_
  refine .ite (fun _ => .stop (ofData rfl) alike) fun _ => ?_
  obtain ⟨header, known⟩ : ∃ header, r.found.header = some header := by
    cases known : r.found.header with
    | none => exact absurd (congrArg Option.isNone known) headed
    | some header => exact ⟨header, rfl⟩
  have complete : FoundAlike { r.found with complete := true }
      { r'.found with complete := true } := by
    refine ⟨by rw [alike.found.same], fun _ => ⟨header, ?_⟩⟩
    rw [← alike.found.same]
    exact known
  refine .ite (fun _ => ?_) fun _ => .ok ⟨⟨alike.stream, complete, alike.notes⟩, header, known⟩
  refine .ite (fun _ => .stop (ofData rfl) alike) fun _ => ?_
  exact .ok ⟨⟨alike.stream, complete, congrArg (· ++ _) alike.notes⟩, header, known⟩

/-! ### The image -/

omit twins in
/-- What was found is read in step. -/
theorem readFound_inStep (inflate : Inflater) {header : Header}
    (known : r.found.header = some header) :
    InStep (PixelFailure header) (Together p s₀ t₀) (Equally (Together p s₀ t₀))
      (readFound inflate r) (readFound inflate r') := by
  have same : r'.found.header = some header := by
    rw [← alike.found.same]
    exact known
  rw [readFound_eq, readFound_eq, ← alike.found.same]
  rcases imageOf_cases inflate known with ⟨image, read⟩ | ⟨e, read, failure⟩
  · rw [read]
    exact .pure alike image
  · rw [read]
    exact .error failure alike

theorem decode_inStep (inflate : Inflater) :
    InStep (OfData Error.kind) (Together p s₀ t₀) (Equally (Together p s₀ t₀)) (decode inflate r)
      (decode inflate r') := by
  rw [decode_eq]
  refine (decodeHeaders_inStep twins alike).bind ?_
  rintro _ _ r r' ⟨alike, header, known⟩
  exact (readFound_inStep alike inflate known).weaken fun _ failure => failure.ofData

/-- Behind headers that were read only the compressed data can fail, or what it inflates to. -/
theorem pixelFailure_of_decode {inflate : Inflater} {t u : Decoder} {e : Error}
    (read : decodeHeaders r = .ok () t) (failed : decode inflate r = .error e u) :
    ∃ header, t.found.header = some header ∧ PixelFailure header e := by
  obtain ⟨_, t', -, alike, header, known⟩ := (decodeHeaders_inStep twins alike).of_ok read
  have run := readFound_inStep alike inflate known
  rw [decode_eq, bind_of_ok read] at failed
  exact ⟨header, known, run.admitted_of_outcome (congrArg outcomeOf failed)⟩

end

/-! ### Requests -/

/-- A reader is asked for the headers or for the image. -/
def ask (inflate : Inflater) : ImageRequest → DecoderM (Option Image) :=
  ImageRequest.ask decodeHeaders (decode inflate)

theorem start_together {v w : Stream} (view : Stream.SameView v w) (options : DecoderOptions) :
    Together 0 v w (Decoder.start v options) (Decoder.start w options) :=
  ⟨view.beside, ⟨rfl, fun complete => nomatch complete⟩, rfl⟩

theorem ask_inStep {p : Nat} {s₀ t₀ : Stream} (twins : Stream.Twins p s₀ t₀)
    (inflate : Inflater) (request : ImageRequest) (r r' : Decoder) (alike : Together p s₀ t₀ r r') :
    InStep (OfData Error.kind) (Together p s₀ t₀) (Equally (Together p s₀ t₀))
      (ask inflate request r) (ask inflate request r') := by
  refine ImageRequest.ask_inStep (fun r r' alike => ?_) (fun r r' alike => ?_) request r r' alike
  · exact (decodeHeaders_inStep twins alike).done fun _ _ made => made.1
  · exact decode_inStep twins alike inflate

/-- The size of the image is read in step, and it is there. -/
theorem dimensions_inStep {p : Nat} {s₀ t₀ : Stream} {r r' : Decoder} (twins : Stream.Twins p s₀ t₀)
    (alike : Together p s₀ t₀ r r') :
    InStep (OfData Error.kind) (Together p s₀ t₀)
      (fun size size' r r' => (size = size' ∧ size.isSome) ∧ Together p s₀ t₀ r r')
      ((do
        decodeHeaders
        return Decoder.dimensions (← get) : DecoderM (Option (Nat × Nat))) r)
      ((do
        decodeHeaders
        return Decoder.dimensions (← get) : DecoderM (Option (Nat × Nat))) r') := by
  refine (decodeHeaders_inStep twins alike).bind ?_
  rintro _ _ r r' ⟨alike, header, known⟩
  refine .ok ⟨⟨?_, ?_⟩, alike⟩
  · exact congrArg (fun w => w.header.map fun h => (h.width, h.height)) alike.found.same
  · exact Option.isSome_iff_exists.mpr ⟨_, congrArg (Option.map _) known⟩

theorem probe_congr {v w : Stream} (view : Stream.SameView v w) : probe v = probe w := by
  have whole := view.whole
  rw [probe, probe, Stream.wholeSlice_eq, Stream.wholeSlice_eq]
  dsimp only
  rw [Stream.readExact_eq whole.twins.left, Stream.readExact_eq whole.twins.right,
    whole.beside.ahead_eq whole.twins]
  by_cases enough : signature.length ≤ (w.part 0 w.length).ahead.length
  · rw [if_pos enough, if_pos enough]
  · rw [if_neg enough, if_neg enough]

end PackageAssets.Png
