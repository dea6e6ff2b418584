import PackageAssets.Proofs.Image.Requests
import PackageAssets.Proofs.Stream.Twins
import PackageAssets.Tga.Decoder

/-!
# Reading TGA in step

A reader counts from where it starts, so over the end of a window and over a
window on just these bytes it reads the same image or fails alike; only where
the pixels were found differs, by the distance of the two starts. Every failure
is one of the data, and behind headers that were read it is want of bytes.
-/
namespace PackageAssets.Tga

/-- There were too few bytes. -/
def CutShort (e : Error) : Prop := ∃ expected found, e = .io (.notEnough expected found)

theorem CutShort.ofData {e : Error} (short : CutShort e) : OfData Error.kind e := by
  obtain ⟨expected, found, rfl⟩ := short
  exact Or.inr rfl

theorem cutShort_of_short (e : IoError) (short : Stream.Short e) : CutShort (.io e) := by
  obtain ⟨expected, found, rfl⟩ := short
  exact ⟨expected, found, rfl⟩

theorem ofData_of_short (e : IoError) (short : Stream.Short e) : OfData Error.kind (.io e) :=
  Stream.ofData_of_short (fun _ => rfl) e short

/-- An image that can be there: not empty, and of a depth that can be read. -/
structure Info.Sensible (info : Info) : Prop where
  width : 0 < info.width
  height : 0 < info.height
  depth : info.pixelDepth = 24 ∨ info.pixelDepth = 32

/-- An image that stands `p` further on. -/
def Info.behind (p : Nat) (info : Info) : Info := { info with pixelOffset := p + info.pixelOffset }

/-- The first reader found what the second did, `p` further on. -/
structure FoundAlike (p : Nat) (c d : Contents) : Prop where
  options : c.options = d.options
  info : c.info = d.info.map (Info.behind p)
  sensible : ∀ info, d.info = some info → info.Sensible

theorem FoundAlike.same {c d : Contents} (found : FoundAlike 0 c d) : c = d := by
  obtain ⟨options, info⟩ := c
  have here : (Info.behind 0 : Info → Info) = id := by
    funext info
    rw [Info.behind, Nat.zero_add]
    rfl
  have known := found.info
  rw [here, Option.map_id] at known
  exact congr (congrArg Contents.mk found.options) known

/-- Two readers, each on its stream, that have the same before them and behind them. -/
abbrev Together (p : Nat) (s₀ t₀ : Stream) : Decoder → Decoder → Prop :=
  Reading.Alike (Stream.Beside p s₀ t₀) (FoundAlike p)

/-! ### Images -/

def pixelSize (info : Info) : Nat := info.pixelDepth / 8

/-- The image in the bytes of its pixels. -/
def imageIn (info : Info) (data : List UInt8) : Option Image :=
  Image.ofPixels? info.width info.height
    ((blocks (pixelSize info) (data.length / pixelSize info) data).map cellOf)

theorem Info.Sensible.pixelSize_pos {info : Info} (sensible : info.Sensible) :
    0 < pixelSize info := by
  unfold pixelSize
  rcases sensible.depth with depth | depth <;> rw [depth] <;> decide

/-- Bytes of the size of the image make one. -/
theorem exists_image {info : Info} (sensible : info.Sensible) {data : List UInt8}
    (size : data.length = info.width * info.height * pixelSize info) :
    ∃ image, imageIn info data = some image := by
  have filled : ((blocks (pixelSize info) (data.length / pixelSize info) data).map cellOf).length =
      info.width * info.height := by
    rw [List.length_map, length_blocks, size, Nat.mul_div_cancel _ sensible.pixelSize_pos]
  exact ⟨_, dif_pos filled⟩

/-- What is left to do once the headers were found. -/
def readImage (info : Info) : DecoderM Image := do
  Reading.onStream (Stream.setPosition info.pixelOffset)
  let view ← Reading.onStream (Stream.readStream (info.width * info.height * pixelSize info))
  match Stream.readRemaining view with
  | .error e _ => throw (.io e)
  | .ok data _ =>
    match imageIn info data with
    | none => throw .zeroDimensions
    | some image => return if info.bottomUp then image.flipY else image

/-- What is left to do once the headers were read. -/
def readFound : DecoderM Image := do
  match (← Reading.soFar).info with
  | none => throw .zeroDimensions
  | some info => readImage info

theorem decode_eq : decode = (decodeHeaders >>= fun _ => readFound) := rfl

theorem readFound_eq {r : Decoder} {info : Info} (known : r.found.info = some info) :
    readFound r = readImage info r := by
  rw [readFound, bind_of_ok (Reading.soFar_eq_ok r), known]

/-! ### Runs in step -/

section

variable {p : Nat} {s₀ t₀ : Stream} {r r' : Decoder} (twins : Stream.Twins p s₀ t₀)
  (alike : Together p s₀ t₀ r r')

include twins alike

theorem readField_inStep (width : Nat) :
    InStep (OfData Error.kind) (Together p s₀ t₀) (Equally (Together p s₀ t₀)) (readField width r)
      (readField width r') :=
  Reading.takes_inStep (Stream.takes_readNat .little width) twins alike ofData_of_short

/-- The headers are read in step, and then there is an image. -/
theorem decodeHeaders_inStep :
    InStep (OfData Error.kind) (Together p s₀ t₀)
      (fun _ _ r r' => Together p s₀ t₀ r r' ∧ ∃ info, r'.found.info = some info)
      (decodeHeaders r) (decodeHeaders r') := by
  unfold decodeHeaders
  refine (Reading.soFar_inStep alike).bind ?_
  rintro _ _ r r' ⟨rfl, rfl, alike⟩
  rw [alike.found.info, Option.isSome_map]
  refine .ite (fun known => .ok ⟨alike, Option.isSome_iff_exists.mp known⟩) fun _ => ?_
  refine (readField_inStep twins alike 1).next fun idLength r r' alike => ?_
  refine (readField_inStep twins alike 1).next fun mapType r r' alike => ?_
  refine (readField_inStep twins alike 1).next fun imageType r r' alike => ?_
  refine .ite (fun _ => .stop (ofData rfl) alike) fun _ => ?_
  refine .ite (fun _ => .stop (ofData rfl) alike) fun _ => ?_
  refine (readField_inStep twins alike 2).next fun _ r r' alike => ?_
  refine (readField_inStep twins alike 2).next fun mapLength r r' alike => ?_
  refine (readField_inStep twins alike 1).next fun entryBits r r' alike => ?_
  refine (readField_inStep twins alike 2).next fun _ r r' alike => ?_
  refine (readField_inStep twins alike 2).next fun _ r r' alike => ?_
  refine (readField_inStep twins alike 2).next fun width r r' alike => ?_
  refine (readField_inStep twins alike 2).next fun height r r' alike => ?_
  refine (readField_inStep twins alike 1).next fun pixelDepth r r' alike => ?_
  refine (readField_inStep twins alike 1).next fun descriptor r r' alike => ?_
  refine .ite (fun _ => .stop (ofData rfl) alike) fun depth => ?_
  refine .ite (fun _ => .stop (ofData rfl) alike) fun filled => ?_
  refine (Reading.soFar_inStep alike).bind ?_
  rintro _ _ r r' ⟨rfl, rfl, alike⟩
  rw [alike.found.options]
  refine .ite (fun _ => .stop (ofData rfl) alike) fun _ => ?_
  refine .optional alike (fun _ => Reading.note_inStep _ _ _ alike) fun r r' alike => ?_
  refine (Reading.get_inStep alike).bind ?_
  rintro r r' _ _ ⟨rfl, rfl, alike⟩
  rw [alike.stream.position_eq]
  refine (Reading.note_inStep _ _ _ alike).next fun _ r r' alike => ?_
  refine (Reading.note_inStep _ _ _ alike).next fun _ r r' alike => ?_
  refine (Reading.note_inStep _ _ _ alike).next fun _ r r' alike => ?_
  refine (Reading.note_inStep _ _ _ alike).next fun _ r r' alike => ?_
  refine .ok ⟨⟨alike.stream, ⟨alike.found.options, ?_, ?_⟩, alike.notes⟩, _, rfl⟩
  · change some _ = some _
    rw [Info.behind, Nat.add_assoc, Nat.add_assoc, Nat.add_assoc]
  · rintro _ ⟨⟩
    exact ⟨by dsimp only; omega, by dsimp only; omega, by dsimp only; omega⟩

/-- Pixels are read in step, and if they are all there they make an image. -/
theorem readImage_inStep {info : Info} (sensible : info.Sensible) :
    InStep CutShort (Together p s₀ t₀) (Equally (Together p s₀ t₀)) (readImage (info.behind p) r)
      (readImage info r') := by
  have positive : 0 < info.width * info.height * pixelSize info :=
    Nat.mul_pos (Nat.mul_pos sensible.width sensible.height) sensible.pixelSize_pos
  unfold readImage
  refine (Reading.onStream_equally alike cutShort_of_short
    (Stream.setPosition_inStep alike.stream info.pixelOffset)).next fun _ r r' alike => ?_
  refine (Reading.onStream_inStep alike cutShort_of_short
    (Stream.readStream_inStep twins alike.stream (Or.inl positive))).bind ?_
  rintro v w r r' ⟨⟨⟨view, size⟩, stream⟩, found, notes⟩
  have alike : Together p s₀ t₀ r r' := ⟨stream, found, notes⟩
  have same := view.beside.ahead_eq view.twins
  obtain ⟨image, made⟩ := exists_image sensible size
  rw [Stream.readRemaining_eq view.twins.left, Stream.readRemaining_eq view.twins.right, ← same]
  dsimp only
  have behind : imageIn (info.behind p) v.ahead = some image := made
  rw [made, behind]
  exact .pure alike _

/-- What was found is read in step. -/
theorem readFound_inStep {info : Info} (known : r'.found.info = some info) :
    InStep CutShort (Together p s₀ t₀) (Equally (Together p s₀ t₀)) (readFound r)
      (readFound r') := by
  have same : r.found.info = some (info.behind p) := by
    rw [alike.found.info, known]
    rfl
  rw [readFound_eq known, readFound_eq same]
  exact readImage_inStep twins alike (alike.found.sensible info known)

theorem decode_inStep :
    InStep (OfData Error.kind) (Together p s₀ t₀) (Equally (Together p s₀ t₀)) (decode r)
      (decode r') := by
  rw [decode_eq]
  refine (decodeHeaders_inStep twins alike).bind ?_
  rintro _ _ r r' ⟨alike, info, known⟩
  exact (readFound_inStep twins alike known).weaken fun _ failure => failure.ofData

/-- Behind headers that were read only bytes can be missing. -/
theorem cutShort_of_decode {t u : Decoder} {e : Error} (read : decodeHeaders r = .ok () t)
    (failed : decode r = .error e u) : CutShort e := by
  obtain ⟨_, t', -, alike, info, known⟩ := (decodeHeaders_inStep twins alike).of_ok read
  have run := readFound_inStep twins alike known
  rw [decode_eq, bind_of_ok read] at failed
  exact run.admitted_of_outcome (congrArg outcomeOf failed)

end

/-! ### Requests -/

/-- A reader is asked for the headers or for the image. -/
def ask : ImageRequest → DecoderM (Option Image) := ImageRequest.ask decodeHeaders decode

theorem start_together {v w : Stream} (view : Stream.SameView v w) (options : DecoderOptions) :
    Together 0 v w (Decoder.start v options) (Decoder.start w options) :=
  ⟨view.beside, ⟨rfl, rfl, fun _ none => nomatch none⟩, rfl⟩

theorem ask_inStep {p : Nat} {s₀ t₀ : Stream} (twins : Stream.Twins p s₀ t₀)
    (request : ImageRequest) (r r' : Decoder) (alike : Together p s₀ t₀ r r') :
    InStep (OfData Error.kind) (Together p s₀ t₀) (Equally (Together p s₀ t₀)) (ask request r)
      (ask request r') := by
  refine ImageRequest.ask_inStep (fun r r' alike => ?_) (fun r r' alike => ?_) request r r' alike
  · exact (decodeHeaders_inStep twins alike).done fun _ _ made => made.1
  · exact decode_inStep twins alike

/-- The size of the image is read in step, and it is there. -/
theorem dimensions_inStep {p : Nat} {s₀ t₀ : Stream} {r r' : Decoder} (twins : Stream.Twins p s₀ t₀)
    (alike : Together p s₀ t₀ r r') :
    InStep (OfData Error.kind) (Together p s₀ t₀)
      (fun size size' r r' => (size = size' ∧ size.isSome) ∧ Together p s₀ t₀ r r')
      ((do
        decodeHeaders
        return Decoder.dimensions (← get) : DecoderM (Option (Nat × Nat))) r)
      ((do
        decodeHeaders
        return Decoder.dimensions (← get) : DecoderM (Option (Nat × Nat))) r') := by
  refine (decodeHeaders_inStep twins alike).bind ?_
  rintro _ _ r r' ⟨alike, info, known⟩
  have same : Decoder.dimensions r = Decoder.dimensions r' := by
    unfold Decoder.dimensions
    rw [alike.found.info, Option.map_map]
    rfl
  refine .ok ⟨⟨same, ?_⟩, alike⟩
  rw [same]
  exact Option.isSome_iff_exists.mpr ⟨_, congrArg (Option.map _) known⟩

theorem probe_congr {v w : Stream} (view : Stream.SameView v w) : probe v = probe w := by
  have whole := view.whole
  have run := (decodeHeaders_inStep whole.twins (start_together whole .usual)).done
    fun _ _ made => made.1
  rw [probe, probe, Stream.wholeSlice_eq, Stream.wholeSlice_eq]
  dsimp only
  rw [Reading.outcome_eq run]

end PackageAssets.Tga
