import PackageAssets.Bmp.Decoder
import PackageAssets.Proofs.Bytes.Stored
import PackageAssets.Proofs.Image.Requests
import PackageAssets.Proofs.Stream.Twins

/-!
# Reading BMP in step

Over windows that show the same bytes, readers that stand at the same byte read
the same image or fail alike. Every failure is one of the data. Once the
headers are read, only too few bytes and an index outside the palette are left
to go wrong: rows have the width of the image, so that they always fill it.
-/
namespace PackageAssets.Bmp

/-- What can go wrong with pixels. -/
inductive PixelFailure : Error → Prop where
  | index : PixelFailure (.invalid "Palette index out of range")
  | short (expected found : Nat) : PixelFailure (.io (.notEnough expected found))

theorem PixelFailure.ofData {e : Error} (failure : PixelFailure e) : OfData Error.kind e := by
  cases failure with
  | index => exact Or.inl rfl
  | short => exact Or.inr rfl

theorem pixelFailure_of_short (e : IoError) (short : Stream.Short e) : PixelFailure (.io e) := by
  obtain ⟨expected, found, rfl⟩ := short
  exact .short expected found

theorem ofData_of_short (e : IoError) (short : Stream.Short e) : OfData Error.kind (.io e) :=
  Stream.ofData_of_short (fun _ => rfl) e short

/-- Two readers found the same, and no image of a depth that cannot be read. -/
structure FoundAlike (c d : Contents) : Prop where
  same : c = d
  depth : ∀ info, c.info = some info → info.depth ∈ depths

/-- Two readers, each on its stream, that have the same before them and behind them. -/
abbrev Together (s₀ t₀ : Stream) : Decoder → Decoder → Prop :=
  Reading.Alike (Stream.Beside 0 s₀ t₀) FoundAlike

/-! ### Rows and images -/

/-- A list is mapped element by element, or an element stops it. -/
theorem mapM_cases {α β : Type} (f : α → Except Error β) (l : List α) :
    (∃ made, l.mapM f = .ok made ∧ made.length = l.length) ∨
      ∃ a ∈ l, ∃ e, f a = .error e ∧ l.mapM f = .error e := by
  induction l with
  | nil => exact Or.inl ⟨[], rfl, rfl⟩
  | cons a l ih =>
    rw [List.mapM_cons]
    cases first : f a with
    | error e => exact Or.inr ⟨a, List.mem_cons_self, e, first, rfl⟩
    | ok b =>
      rcases ih with ⟨made, rest, size⟩ | ⟨c, member, e, stops, rest⟩
      · rw [rest]
        exact Or.inl ⟨b :: made, rfl, congrArg Nat.succ size⟩
      · rw [rest]
        exact Or.inr ⟨c, List.mem_cons_of_mem a member, e, stops, rfl⟩

/-- The colour behind an index, as a row of indices looks it up. -/
def colorOf (palette : List UInt32) (index : UInt8) : Except Error UInt32 :=
  match palette.toArray[index.toNat]? with
  | some cell => .ok cell
  | none => .error (.invalid "Palette index out of range")

theorem colorOf_error {palette : List UInt32} {index : UInt8} {e : Error}
    (stops : colorOf palette index = .error e) : e = .invalid "Palette index out of range" := by
  unfold colorOf at stops
  cases known : palette.toArray[index.toNat]? with
  | some cell =>
    rw [known] at stops
    cases stops
  | none =>
    rw [known] at stops
    cases stops
    rfl

/-- A stored row has a cell for each pixel of the width, or an index without a colour. -/
theorem rowCells_cases (info : Info) (palette : List UInt32) {row : List UInt8}
    (size : row.length = stride info) :
    (∃ cells, rowCells info palette row = .ok cells ∧ cells.length = info.width) ∨
      rowCells info palette row = .error (.invalid "Palette index out of range") := by
  unfold rowCells
  by_cases indexed : info.depth = 8
  · rw [if_pos indexed]
    have wide : info.width ≤ row.length := by
      rw [size, stride, indexed]
      omega
    rcases mapM_cases (colorOf palette) (row.take info.width) with
      ⟨cells, mapped, length⟩ | ⟨index, -, e, stops, mapped⟩
    · exact Or.inl ⟨cells, mapped, length.trans (List.length_take_of_le wide)⟩
    · rw [colorOf_error stops] at mapped
      exact Or.inr mapped
  · rw [if_neg indexed]
    refine Or.inl ⟨_, rfl, ?_⟩
    rw [List.length_map, length_blocks]

/-- Rows of the width of the image. -/
def Full (info : Info) (rows : List (List UInt32)) : Prop := ∀ row ∈ rows, row.length = info.width

/-- What is left to do once the headers were found. -/
def readImage (info : Info) : DecoderM Image := do
  Reading.onStream (Stream.setPosition info.dataOffset)
  let needed := Count.clamp (stride info * info.height)
  let remaining := (← get).stream.remaining
  if remaining < needed then throw (.io (.notEnough needed remaining))
  let rows ← readRows info info.height []
  let rows := if info.bottomUp then rows else rows.reverse
  match Image.ofPixels? info.width info.height rows.flatten with
  | none => throw (.invalid "Row outside the image")
  | some image => return image

/-- What is left to do once the headers were read. -/
def readFound : DecoderM Image := do
  match (← Reading.soFar).info with
  | none => throw (.invalid "Headers not decoded")
  | some info => readImage info

theorem decode_eq : decode = (decodeHeaders >>= fun _ => readFound) := rfl

theorem readFound_eq {r : Decoder} {info : Info} (known : r.found.info = some info) :
    readFound r = readImage info r := by
  rw [readFound, bind_of_ok (Reading.soFar_eq_ok r), known]

/-- Rows that were read make an image. -/
theorem exists_image {info : Info} {rows : List (List UInt32)} (full : Full info rows)
    (count : rows.length = info.height) :
    ∃ image, Image.ofPixels? info.width info.height
      (if info.bottomUp then rows else rows.reverse).flatten = some image := by
  have sized : ∀ row ∈ (if info.bottomUp then rows else rows.reverse), row.length = info.width := by
    intro row member
    apply full row
    split at member
    · exact member
    · exact List.mem_reverse.mp member
  have height : (if info.bottomUp then rows else rows.reverse).length = info.height := by
    split
    · exact count
    · exact List.length_reverse.trans count
  have filled : (if info.bottomUp then rows else rows.reverse).flatten.length =
      info.width * info.height := by
    rw [length_flatten_of_sized sized, height]
  exact ⟨_, dif_pos filled⟩

/-! ### Runs in step -/

section

variable {s₀ t₀ : Stream} {r r' : Decoder} (twins : Stream.Twins 0 s₀ t₀)
  (alike : Together s₀ t₀ r r')

include twins alike

/-! ### Headers -/

theorem readField_inStep (width : Nat) :
    InStep (OfData Error.kind) (Together s₀ t₀) (Equally (Together s₀ t₀)) (readField width r)
      (readField width r') :=
  Reading.takes_inStep (Stream.takes_readNat .little width) twins alike ofData_of_short

theorem readSigned_inStep :
    InStep (OfData Error.kind) (Together s₀ t₀) (Equally (Together s₀ t₀)) (readSigned r)
      (readSigned r') :=
  Reading.takes_inStep (Stream.takes_readInt ⟨4, true, .little⟩) twins alike ofData_of_short

theorem readExact_inStep (count : Nat) :
    InStep (OfData Error.kind) (Together s₀ t₀) (Equally (Together s₀ t₀))
      ((Reading.onStream (Stream.readExact count) : DecoderM (List UInt8)) r)
      ((Reading.onStream (Stream.readExact count) : DecoderM (List UInt8)) r') :=
  Reading.takes_inStep (Stream.takes_readExact count) twins alike ofData_of_short

omit twins in
theorem skip_inStep (count : Nat) :
    InStep (OfData Error.kind) (Together s₀ t₀) (Equally (Together s₀ t₀))
      ((Reading.onStream (Stream.skip count) : DecoderM Unit) r)
      ((Reading.onStream (Stream.skip count) : DecoderM Unit) r') :=
  Reading.onStream_equally alike ofData_of_short (Stream.skip_inStep alike.stream count)

omit twins in
theorem goTo_inStep {admitted : Error → Prop}
    (known : ∀ e, Stream.Short e → admitted (.io e)) (position : Nat) :
    InStep admitted (Together s₀ t₀) (Equally (Together s₀ t₀))
      ((Reading.onStream (Stream.setPosition position) : DecoderM Unit) r)
      ((Reading.onStream (Stream.setPosition position) : DecoderM Unit) r') :=
  Reading.onStream_equally alike known (Stream.goTo_inStep alike.stream position)

omit twins in
/-- A change to the palette alone. -/
theorem modifyPalette_inStep (change : List UInt32 → List UInt32) :
    InStep (OfData Error.kind) (Together s₀ t₀) (Equally (Together s₀ t₀))
      ((Reading.modifyFound fun c => { c with palette := change c.palette } : DecoderM Unit) r)
      ((Reading.modifyFound fun c => { c with palette := change c.palette } : DecoderM Unit) r') :=
  Reading.modifyFound_inStep alike ⟨by rw [alike.found.same], alike.found.depth⟩

theorem readColors_inStep (count : Nat) :
    InStep (OfData Error.kind) (Together s₀ t₀) (Equally (Together s₀ t₀)) (readColors count r)
      (readColors count r') := by
  induction count generalizing r r' with
  | zero => exact .pure alike ()
  | succ count ih =>
    refine (readExact_inStep twins alike 4).next fun bytes r r' alike => ?_
    exact (modifyPalette_inStep alike (· ++ [cellOf bytes])).next fun _ _ _ alike => ih alike

theorem readPalette_inStep (infoSize colorsUsed : Nat) :
    InStep (OfData Error.kind) (Together s₀ t₀) (Equally (Together s₀ t₀))
      (readPalette infoSize colorsUsed r) (readPalette infoSize colorsUsed r') := by
  unfold readPalette
  refine .optional alike (fun _ => Reading.note_inStep _ _ _ alike) fun r r' alike => ?_
  refine (goTo_inStep alike ofData_of_short _).next fun _ r r' alike => ?_
  refine (modifyPalette_inStep alike fun _ => []).next fun _ r r' alike => ?_
  exact readColors_inStep twins alike _

/-- The headers are read in step, and then there is an image. -/
theorem decodeHeaders_inStep :
    InStep (OfData Error.kind) (Together s₀ t₀)
      (fun _ _ r r' => Together s₀ t₀ r r' ∧ ∃ info, r.found.info = some info)
      (decodeHeaders r) (decodeHeaders r') := by
  unfold decodeHeaders
  refine (Reading.soFar_inStep alike).bind ?_
  rintro _ _ r r' ⟨rfl, rfl, alike⟩
  rw [← alike.found.same]
  refine .ite (fun known => .ok ⟨alike, Option.isSome_iff_exists.mp known⟩) fun _ => ?_
  refine (readExact_inStep twins alike _).next fun found r r' alike => ?_
  refine .ite (fun _ => .stop (ofData rfl) alike) fun _ => ?_
  refine (skip_inStep alike 8).next fun _ r r' alike => ?_
  refine (readField_inStep twins alike 4).next fun dataOffset r r' alike => ?_
  refine (readField_inStep twins alike 4).next fun infoSize r r' alike => ?_
  refine .ite (fun _ => .stop (ofData rfl) alike) fun _ => ?_
  refine (readSigned_inStep twins alike).next fun signedWidth r r' alike => ?_
  refine (readSigned_inStep twins alike).next fun signedHeight r r' alike => ?_
  refine .ite (fun _ => .stop (ofData rfl) alike) fun _ => ?_
  refine (Reading.soFar_inStep alike).bind ?_
  rintro _ _ r r' ⟨rfl, rfl, alike⟩
  rw [← alike.found.same]
  refine .ite (fun _ => .stop (ofData rfl) alike) fun _ => ?_
  refine (readField_inStep twins alike 2).next fun planes r r' alike => ?_
  refine .ite (fun _ => .stop (ofData rfl) alike) fun _ => ?_
  refine (readField_inStep twins alike 2).next fun depth r r' alike => ?_
  refine .ite (fun _ => .stop (ofData rfl) alike) fun listed => ?_
  refine (readField_inStep twins alike 4).next fun compression r r' alike => ?_
  refine .ite (fun _ => .stop (ofData rfl) alike) fun _ => ?_
  refine (skip_inStep alike 12).next fun _ r r' alike => ?_
  refine (readField_inStep twins alike 4).next fun colorsUsed r r' alike => ?_
  refine (Reading.note_inStep _ _ _ alike).next fun _ r r' alike => ?_
  refine (Reading.note_inStep _ _ _ alike).next fun _ r r' alike => ?_
  refine (Reading.note_inStep _ _ _ alike).next fun _ r r' alike => ?_
  refine (Reading.note_inStep _ _ _ alike).next fun _ r r' alike => ?_
  have depthListed : depth ∈ depths := by simpa using listed
  refine .optional alike (fun _ => readPalette_inStep twins alike infoSize colorsUsed) ?_
  intro r r' alike
  refine .ok ⟨⟨alike.stream, ⟨by rw [alike.found.same], ?_⟩, alike.notes⟩, _, rfl⟩
  rintro _ ⟨⟩
  exact depthListed

/-! ### Pixels -/

/-- Rows are read in step, and each has the width of the image. -/
theorem readRows_inStep (info : Info) (count : Nat) {done : List (List UInt32)}
    (full : Full info done) :
    InStep PixelFailure (Together s₀ t₀)
      (fun rows rows' r r' => (Full info rows ∧ rows.length = done.length + count) ∧
        Equally (Together s₀ t₀) rows rows' r r')
      (readRows info count done r) (readRows info count done r') := by
  induction count generalizing done r r' with
  | zero => exact .ok ⟨⟨full, rfl⟩, rfl, alike⟩
  | succ count ih =>
    unfold readRows
    have taken := (Stream.takes_readExact (stride info)).inStep_taken twins alike.stream
    refine (Reading.onStream_inStep alike pixelFailure_of_short taken).bind ?_
    rintro row _ r r' ⟨⟨⟨bytes, size, made⟩, -, rfl, stream⟩, found, notes⟩
    have size : row.length = stride info := made ▸ size
    have alike : Together s₀ t₀ r r' := ⟨stream, found, notes⟩
    refine (Reading.soFar_inStep alike).bind ?_
    rintro _ _ r r' ⟨rfl, rfl, alike⟩
    rw [← alike.found.same]
    rcases rowCells_cases info r.found.palette size with ⟨cells, read, length⟩ | outside
    · have next := ih alike (List.forall_mem_cons.mpr ⟨length, full⟩)
      have more : (cells :: done).length + count = done.length + (count + 1) := by
        rw [List.length_cons]
        omega
      rw [more] at next
      rw [read]
      exact next
    · rw [outside]
      exact .error .index alike

theorem readImage_inStep (info : Info) :
    InStep PixelFailure (Together s₀ t₀) (Equally (Together s₀ t₀)) (readImage info r)
      (readImage info r') := by
  unfold readImage
  refine (goTo_inStep alike pixelFailure_of_short _).next fun _ r r' alike => ?_
  refine (Reading.get_inStep alike).bind ?_
  rintro r r' _ _ ⟨rfl, rfl, alike⟩
  rw [alike.stream.remaining_eq twins]
  refine .ite (fun _ => .stop (.short _ _) alike) fun _ => ?_
  have none : Full info [] := fun _ member => absurd member List.not_mem_nil
  refine (readRows_inStep twins alike info info.height none).bind ?_
  rintro rows _ r r' ⟨⟨full, count⟩, rfl, alike⟩
  obtain ⟨image, made⟩ := exists_image full (count.trans (Nat.zero_add _))
  dsimp only
  rw [made]
  exact .pure alike image

theorem readFound_inStep {info : Info} (known : r.found.info = some info) :
    InStep PixelFailure (Together s₀ t₀) (Equally (Together s₀ t₀)) (readFound r)
      (readFound r') := by
  have same : r'.found.info = some info := by
    rw [← alike.found.same]
    exact known
  rw [readFound_eq known, readFound_eq same]
  exact readImage_inStep twins alike info

theorem decode_inStep :
    InStep (OfData Error.kind) (Together s₀ t₀) (Equally (Together s₀ t₀)) (decode r)
      (decode r') := by
  rw [decode_eq]
  refine (decodeHeaders_inStep twins alike).bind ?_
  rintro _ _ r r' ⟨alike, info, known⟩
  exact (readFound_inStep twins alike known).weaken fun _ failure => failure.ofData

/-- Behind headers that were read only the pixels can fail. -/
theorem pixelFailure_of_decode {t u : Decoder} {e : Error} (read : decodeHeaders r = .ok () t)
    (failed : decode r = .error e u) : PixelFailure e := by
  obtain ⟨_, t', -, alike, info, known⟩ := (decodeHeaders_inStep twins alike).of_ok read
  have run := readFound_inStep twins alike known
  rw [decode_eq, bind_of_ok read] at failed
  exact run.admitted_of_outcome (congrArg outcomeOf failed)

end

/-! ### Requests -/

/-- A reader is asked for the headers or for the image. -/
def ask : ImageRequest → DecoderM (Option Image) := ImageRequest.ask decodeHeaders decode

theorem start_together {v w : Stream} (view : Stream.SameView v w) (options : DecoderOptions) :
    Together v w (Decoder.start v options) (Decoder.start w options) :=
  ⟨view.beside, ⟨rfl, fun _ none => nomatch none⟩, rfl⟩

theorem ask_inStep {s₀ t₀ : Stream} (twins : Stream.Twins 0 s₀ t₀) (request : ImageRequest)
    (r r' : Decoder) (alike : Together s₀ t₀ r r') :
    InStep (OfData Error.kind) (Together s₀ t₀) (Equally (Together s₀ t₀)) (ask request r)
      (ask request r') := by
  refine ImageRequest.ask_inStep (fun r r' alike => ?_) (fun r r' alike => ?_) request r r' alike
  · exact (decodeHeaders_inStep twins alike).done fun _ _ made => made.1
  · exact decode_inStep twins alike

/-- The size of the image is read in step, and it is there. -/
theorem dimensions_inStep {s₀ t₀ : Stream} {r r' : Decoder} (twins : Stream.Twins 0 s₀ t₀)
    (alike : Together s₀ t₀ r r') :
    InStep (OfData Error.kind) (Together s₀ t₀)
      (fun size size' r r' => (size = size' ∧ size.isSome) ∧ Together s₀ t₀ r r')
      ((do
        decodeHeaders
        return Decoder.dimensions (← get) : DecoderM (Option (Nat × Nat))) r)
      ((do
        decodeHeaders
        return Decoder.dimensions (← get) : DecoderM (Option (Nat × Nat))) r') := by
  refine (decodeHeaders_inStep twins alike).bind ?_
  rintro _ _ r r' ⟨alike, info, known⟩
  refine .ok ⟨⟨?_, ?_⟩, alike⟩
  · exact congrArg (fun c => c.info.map fun i => (i.width, i.height)) alike.found.same
  · exact Option.isSome_iff_exists.mpr ⟨_, congrArg (Option.map _) known⟩

theorem probe_congr {v w : Stream} (view : Stream.SameView v w) : probe v = probe w := by
  have whole := view.whole
  have run := (Stream.takes_readExact magic.length).inStep whole.twins whole.beside
  rw [probe, probe, Stream.wholeSlice_eq, Stream.wholeSlice_eq]
  dsimp only
  generalize Stream.readExact magic.length (v.part 0 v.length) = left at run ⊢
  generalize Stream.readExact magic.length (w.part 0 w.length) = right at run ⊢
  cases run with
  | error => rfl
  | @ok found _ after after' together =>
    obtain ⟨rfl, beside⟩ := together
    have sized := (Stream.takes_readNat .little 4).inStep whole.twins (beside.seek fileHeaderSize)
    rw [Nat.zero_add] at sized
    dsimp only
    generalize Stream.readNat .little 4 (after.seek fileHeaderSize) = left at sized ⊢
    generalize Stream.readNat .little 4 (after'.seek fileHeaderSize) = right at sized ⊢
    cases sized with
    | ok together => rw [together.1]
    | error => rfl

end PackageAssets.Bmp
