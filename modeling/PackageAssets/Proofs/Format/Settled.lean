import PackageAssets.Proofs.Format.Retry

/-!
# Readers that are settled

A reader that has its headers keeps them. An image starts where they say, or is
made of data that was collected with them, so it does not matter where an
earlier request left the stream: every request gets the answer that it got the
first time, also after images that could not be read.
-/
namespace PackageAssets

open Reading

section Settled

variable {ε σ μ : Type}

/-- What a reader answers that has its headers. -/
def ImageRequest.answer (image : ReadingM ε σ Image) (t : Reading σ) :
    ImageRequest → Except ε (Option Image)
  | .headers => .ok none
  | .image => (outcomeOf (image t)).map some

/-- Whatever is asked, each request gets the answer it would get now, and what is shown stays. -/
structure Settled (headers : ReadingM ε σ Unit) (image : ReadingM ε σ Image)
    (shown : Reading σ → μ) (t : Reading σ) : Prop where
  answers : ∀ requests, (askAll (ImageRequest.ask headers image) requests t).1 =
    requests.map (ImageRequest.answer image t)
  shows : ∀ requests, shown (askAll (ImageRequest.ask headers image) requests t).2 = shown t

/-- The reader is `t` but for where it stands in the stream. -/
def Reading.Moved (t u : Reading σ) : Prop :=
  ∃ position, u = { t with stream := t.stream.seek position }

theorem Reading.moved_refl (t : Reading σ) : Moved t t := ⟨t.stream.position, rfl⟩

/-! ### What moves a reader -/

section Moving

variable {α β : Type} {t : Reading σ}

theorem keeps_moved [OfIoError ε] {step : StreamM α} (moves : Stream.Moves step) :
    Keeps (Moved t) (onStream step : ReadingM ε σ α) := by
  rintro _ ⟨position, rfl⟩
  have ends := moves t.stream (t.stream.seek position) ⟨position, rfl⟩
  unfold onStream
  generalize step (t.stream.seek position) = result at ends
  cases ends with
  | ok finished =>
    obtain ⟨place, rfl⟩ := finished
    exact .ok ⟨place, rfl⟩
  | error stopped =>
    obtain ⟨place, rfl⟩ := stopped
    exact .error ⟨place, rfl⟩

theorem keeps_soFar {kept : Reading σ → Prop} : Keeps kept (soFar : ReadingM ε σ σ) :=
  fun _ held => .ok held

/-- A step that goes to a place first does not depend on where it starts. -/
theorem setPosition_bind_moved [OfIoError ε] {place : Nat} {next : Unit → ReadingM ε σ β}
    {u : Reading σ} (moved : Moved t u) :
    (onStream (Stream.setPosition place) >>= next) u =
      (onStream (Stream.setPosition place) >>= next) t := by
  obtain ⟨position, rfl⟩ := moved
  rfl

end Moving

variable {headers : ReadingM ε σ Unit} {image rest : ReadingM ε σ Image} {shown : Reading σ → μ}
  {r t : Reading σ}

/-! ### After the headers -/

section Answers

variable (again : ∀ u, Moved t u → headers u = .ok () u)
  (same : ∀ u, Moved t u → outcomeOf (image u) = outcomeOf (image t))
  (keeps : Keeps (Moved t) image)

include again same keeps

theorem ask_moved (request : ImageRequest) {u : Reading σ} (moved : Moved t u) :
    outcomeOf (ImageRequest.ask headers image request u) = ImageRequest.answer image t request ∧
      Moved t (leftBy (ImageRequest.ask headers image request u)) := by
  cases request with
  | headers =>
    rw [ImageRequest.ask, bind_of_ok (again u moved)]
    exact ⟨rfl, moved⟩
  | image =>
    rw [ImageRequest.ask, ImageRequest.answer, ← same u moved]
    have ends := keeps u moved
    cases ran : image u with
    | ok made v =>
      rw [bind_of_ok ran]
      exact ⟨rfl, ends.of_ok ran⟩
    | error e v =>
      rw [bind_of_error ran]
      exact ⟨rfl, ends.of_error ran⟩

theorem askAll_moved (requests : List ImageRequest) {u : Reading σ} (moved : Moved t u) :
    (askAll (ImageRequest.ask headers image) requests u).1 =
        requests.map (ImageRequest.answer image t) ∧
      Moved t (askAll (ImageRequest.ask headers image) requests u).2 := by
  induction requests generalizing u with
  | nil => exact ⟨rfl, moved⟩
  | cons request requests ih =>
    obtain ⟨answered, left⟩ := ask_moved again same keeps request moved
    obtain ⟨others, last⟩ := ih left
    refine ⟨?_, last⟩
    rw [List.map_cons, ← answered, ← others]
    rfl

end Answers

/--
A reader that reads its image behind the headers is settled once these were read, if it reads the
image alike from wherever it stands and at most moves on the way.
-/
theorem settled_of_headers (split : image = headers >>= fun _ => rest)
    (read : headers r = .ok () t) (again : ∀ u, Moved t u → headers u = .ok () u)
    (same : ∀ u, Moved t u → outcomeOf (rest u) = outcomeOf (rest t))
    (keeps : Keeps (Moved t) rest) (view : ∀ u, Moved t u → shown u = shown t) :
    image r = image t ∧ Settled headers image shown t := by
  have behind (u : Reading σ) (moved : Moved t u) : image u = rest u := by
    rw [split, bind_of_ok (again u moved)]
  have alike (u : Reading σ) (moved : Moved t u) : outcomeOf (image u) = outcomeOf (image t) := by
    rw [behind u moved, behind t (moved_refl t), same u moved]
  have stays : Keeps (Moved t) image := by
    intro u moved
    rw [behind u moved]
    exact keeps u moved
  have run (requests : List ImageRequest) := askAll_moved again alike stays requests (moved_refl t)
  refine ⟨?_, fun requests => (run requests).1, fun requests => view _ (run requests).2⟩
  rw [behind t (moved_refl t), split, bind_of_ok read]

/--
A reader that knows what its headers say reads them again, and reads the image by what they say. It
is settled if that does not depend on where it stands.
-/
theorem settled_of_known {ι : Type} {said : σ → Option ι} {info : ι}
    {readImage : ι → ReadingM ε σ Image} (split : image = headers >>= fun _ => rest)
    (read : headers r = .ok () t) (known : said t.found = some info)
    (again : ∀ u, said u.found = some info → headers u = .ok () u)
    (reads : ∀ u, said u.found = some info → rest u = readImage info u)
    (alike : ∀ u, Moved t u → readImage info u = readImage info t) (keeps : Keeps (Moved t) rest)
    (view : ∀ u, Moved t u → shown u = shown t) :
    image r = image t ∧ Settled headers image shown t := by
  have still (u : Reading σ) (moved : Moved t u) : said u.found = some info := by
    obtain ⟨position, rfl⟩ := moved
    exact known
  refine settled_of_headers split read (fun u moved => again u (still u moved))
    (fun u moved => ?_) keeps view
  rw [reads u (still u moved), reads t known, alike u moved]

/-! ### Before the headers -/

/-- What a step at most moves still stands where it did and has found the same. -/
theorem Reading.Moved.standing {s : Stream} {known : σ → Prop} {u : Reading σ} (moved : Moved t u)
    (standing : Standing s known t) : Standing s known u := by
  obtain ⟨position, rfl⟩ := moved
  obtain ⟨place, same⟩ := standing.place
  exact ⟨⟨position, congrArg (·.seek position) same⟩, standing.found⟩

section Asked

variable {s : Stream} {unread known : σ → Prop} (split : image = headers >>= fun _ => rest)
  (first : Leaves (Standing s unread) (fun _ => Standing s known) headers)
  (again : ∀ u, known u.found → headers u = .ok () u) (keeps : ∀ t, Keeps (Moved t) rest)

/-- The reader was asked for something, and its headers are still to be read or are known. -/
def Asked (s : Stream) (unread known : σ → Prop) (u : Reading σ) : Prop :=
  Standing s unread u ∨ Standing s known u

include first again in
theorem ends_headers {u : Reading σ} (asked : Asked s unread known u) :
    Ends (Asked s unread known) (fun _ => Standing s known) (headers u) := by
  rcases asked with none | some
  · cases ran : headers u with
    | ok a v => exact .ok ((first u none).of_ok ran)
    | error e v => exact .error (.inl ((first u none).of_error ran))
  · rw [again u some.found]
    exact .ok some

include split first again keeps

theorem asked_ask (request : ImageRequest) (u : Reading σ) (asked : Asked s unread known u) :
    Asked s unread known (leftBy (ImageRequest.ask headers image request u)) := by
  have behind (v : Reading σ) (here : Standing s known v) :
      Ends (Asked s unread known) (fun _ => Asked s unread known) (rest v) :=
    .of_leftBy (.inr (Moved.standing (keeps v v (moved_refl v)).left here))
  have ends := ends_headers first again asked
  refine Ends.left ?_
  cases request with
  | headers => exact ends.bind fun _ v here => .ok (.inr here)
  | image =>
    subst split
    exact (ends.bind fun _ => behind).bind fun _ v kept => .ok kept

/-- Whatever a reader was asked before, once its headers are read it knows what they say. -/
theorem known_of_headers (start : Standing s unread r) (requests : List ImageRequest)
    (read : headers (askAll (ImageRequest.ask headers image) requests r).2 = .ok () t) :
    Standing s known t := by
  have asked := askAll_keeps (asked_ask split first again keeps) (.inl start) requests
  exact (ends_headers first again asked).of_ok read

end Asked

end Settled

/-! ### The formats -/

namespace Png

/-- What a PNG reader shows: the header, and the size in it. -/
def Decoder.metadata (d : Decoder) : Option Header × Option (Nat × Nat) :=
  (d.found.header, d.dimensions)

theorem decodeHeaders_again {t : Decoder} (complete : t.found.complete = true) :
    decodeHeaders t = .ok () t := by
  rw [decodeHeaders, bind_of_ok (soFar_eq_ok t), complete]
  rfl

theorem complete_of_decodeHeaders {r t : Decoder} (read : decodeHeaders r = .ok () t) :
    t.found.complete = true := by
  cases before : r.found.complete with
  | true =>
    cases (decodeHeaders_again before).symm.trans read
    exact before
  | false =>
    rw [decodeHeaders_eq before] at read
    obtain ⟨_, _, -, read⟩ := bind_eq_ok_iff.mp read
    obtain ⟨_, _, -, read⟩ := bind_eq_ok_iff.mp read
    obtain ⟨_, _, -, read⟩ := bind_eq_ok_iff.mp read
    rw [(of_concludeWalk read).2.2]

theorem keeps_readFound (inflate : Inflater) (t : Decoder) :
    Keeps (Moved t) (readFound inflate) := by
  intro u moved
  rw [readFound_eq]
  cases imageOf inflate u.found with
  | error e => exact .error moved
  | ok image => exact .ok moved

theorem settled (inflate : Inflater) {r t : Decoder} (read : decodeHeaders r = .ok () t) :
    decode inflate r = decode inflate t ∧
      Settled decodeHeaders (decode inflate) Decoder.metadata t := by
  have complete := complete_of_decodeHeaders read
  refine settled_of_headers (decode_eq inflate) read ?_ ?_ (keeps_readFound inflate t) ?_
  · rintro u ⟨position, rfl⟩
    exact decodeHeaders_again complete
  · rintro u ⟨position, rfl⟩
    rw [readFound_eq, readFound_eq]
    cases imageOf inflate t.found with
    | error e => rfl
    | ok image => rfl
  · rintro u ⟨position, rfl⟩
    rfl

end Png

namespace Bmp

/-- What a BMP reader shows: the size of the image and its bits per pixel. -/
def Decoder.metadata (d : Decoder) : Option (Nat × Nat) × Option Nat := (d.dimensions, d.depth)

theorem decodeHeaders_again {t : Decoder} {info : Info} (known : t.found.info = some info) :
    decodeHeaders t = .ok () t := by
  rw [decodeHeaders, bind_of_ok (soFar_eq_ok t), known]
  rfl

theorem exists_info {r t : Decoder} (read : decodeHeaders r = .ok () t) :
    ∃ info, t.found.info = some info := by
  cases before : r.found.info with
  | some info =>
    cases (decodeHeaders_again before).symm.trans read
    exact ⟨info, before⟩
  | none =>
    have start : Standing r.stream (Unread r.found.options) r :=
      ⟨⟨r.stream.position, rfl⟩, rfl, before⟩
    exact ((leaves_decodeHeaders r start).of_ok read).found

theorem keeps_readImage {t : Decoder} (info : Info) : Keeps (Moved t) (readImage info) := by
  have rows (count : Nat) (done : List (List UInt32)) :
      Keeps (Moved t) (readRows info count done) := by
    induction count generalizing done with
    | zero => exact keeps_pure done
    | succ count ih =>
      refine leaves_bind (keeps_moved (Stream.moves_readExact _)) fun bytes => ?_
      refine leaves_bind keeps_soFar fun c => ?_
      cases rowCells info c.palette bytes with
      | error e => exact leaves_throw e
      | ok cells => exact ih (cells :: done)
  unfold readImage
  refine leaves_bind (keeps_moved (Stream.moves_setPosition _)) fun _ => leaves_get fun r => ?_
  refine leaves_check (leaves_bind (rows _ _) fun rows => ?_)
  dsimp only
  split
  · exact leaves_throw _
  · exact keeps_pure _

theorem keeps_readFound (t : Decoder) : Keeps (Moved t) readFound := by
  unfold readFound
  refine leaves_bind keeps_soFar fun c => ?_
  cases c.info with
  | none => exact leaves_throw _
  | some info => exact keeps_readImage info

theorem settled {r t : Decoder} (read : decodeHeaders r = .ok () t) :
    decode r = decode t ∧ Settled decodeHeaders decode Decoder.metadata t := by
  obtain ⟨info, known⟩ := exists_info read
  refine settled_of_known decode_eq read known (fun _ => decodeHeaders_again)
    (fun _ => readFound_eq) (fun _ => setPosition_bind_moved) (keeps_readFound t) ?_
  rintro u ⟨position, rfl⟩
  rfl

end Bmp

namespace Tga

theorem decodeHeaders_again {t : Decoder} {info : Info} (known : t.found.info = some info) :
    decodeHeaders t = .ok () t := by
  rw [decodeHeaders, bind_of_ok (soFar_eq_ok t), known]
  rfl

theorem exists_info {r t : Decoder} (read : decodeHeaders r = .ok () t) :
    ∃ info, t.found.info = some info := by
  cases before : r.found.info with
  | some info =>
    cases (decodeHeaders_again before).symm.trans read
    exact ⟨info, before⟩
  | none =>
    have start : Standing r.stream (Unread r.found.options) r :=
      ⟨⟨r.stream.position, rfl⟩, rfl, before⟩
    exact ((leaves_decodeHeaders r start).of_ok read).found

theorem keeps_readImage {t : Decoder} (info : Info) : Keeps (Moved t) (readImage info) := by
  unfold readImage
  refine leaves_bind (keeps_moved (Stream.moves_setPosition _)) fun _ => ?_
  refine leaves_bind (keeps_moved (Stream.moves_readStream _)) fun view => ?_
  cases Stream.readRemaining view with
  | error e _ => exact leaves_throw _
  | ok data _ =>
    dsimp only
    split
    · exact leaves_throw _
    · exact keeps_pure _

theorem keeps_readFound (t : Decoder) : Keeps (Moved t) readFound := by
  unfold readFound
  refine leaves_bind keeps_soFar fun c => ?_
  cases c.info with
  | none => exact leaves_throw _
  | some info => exact keeps_readImage info

theorem settled {r t : Decoder} (read : decodeHeaders r = .ok () t) :
    decode r = decode t ∧ Settled decodeHeaders decode Decoder.dimensions t := by
  obtain ⟨info, known⟩ := exists_info read
  refine settled_of_known decode_eq read known (fun _ => decodeHeaders_again)
    (fun _ => readFound_eq) (fun _ => setPosition_bind_moved) (keeps_readFound t) ?_
  rintro u ⟨position, rfl⟩
  rfl

end Tga

/--
A reader whose headers were read once, wherever it started and whatever was asked before, is
settled:
from then on it reads the headers again whenever it is asked, shows the same, and yields the same
image or refuses it for the same reason as the first time.
-/
theorem decodeHeaders_settles (inflate : Png.Inflater) :
    (∀ r t, Png.decodeHeaders r = .ok () t →
      Png.decode inflate r = Png.decode inflate t ∧
        Settled Png.decodeHeaders (Png.decode inflate) Png.Decoder.metadata t) ∧
    (∀ r t, Bmp.decodeHeaders r = .ok () t →
      Bmp.decode r = Bmp.decode t ∧
        Settled Bmp.decodeHeaders Bmp.decode Bmp.Decoder.metadata t) ∧
    ∀ r t, Tga.decodeHeaders r = .ok () t →
      Tga.decode r = Tga.decode t ∧
        Settled Tga.decodeHeaders Tga.decode Tga.Decoder.dimensions t :=
  ⟨fun _ _ => Png.settled inflate, fun _ _ => Bmp.settled, fun _ _ => Tga.settled⟩

/-- A header for one pixel of three bytes, of which two are missing. -/
def cutTarga : List UInt8 := [0, 0, 2, 0, 0, 0, 0, 0, 0, 0, 0, 0, 1, 0, 1, 0, 24, 0, 7]

theorem decodeHeaders_settles_cutTarga :
    ∃ t, Tga.decodeHeaders (Tga.Decoder.start (.ofBytes cutTarga) .usual) = .ok () t ∧
      (askAll Tga.ask [.image, .headers, .image] t).1 =
        [.error (.io (.notEnough 3 1)), .ok none, .error (.io (.notEnough 3 1))] := by
  obtain ⟨t, read⟩ : ∃ t,
      Tga.decodeHeaders (Tga.Decoder.start (.ofBytes cutTarga) .usual) = .ok () t := ⟨_, rfl⟩
  obtain ⟨same, settled⟩ := (decodeHeaders_settles .zlib).2.2 _ t read
  have failed : outcomeOf (Tga.decode (Tga.Decoder.start (.ofBytes cutTarga) .usual)) =
      .error (.io (.notEnough 3 1)) := rfl
  rw [same] at failed
  refine ⟨t, read, ?_⟩
  rw [Tga.ask, settled.answers]
  simp only [List.map_cons, List.map_nil, ImageRequest.answer, failed]
  rfl

end PackageAssets
