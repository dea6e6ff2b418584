import PackageAssets.Proofs.Bmp.Pixels

/-!
# The places in a BMP

The fields of the headers are read from where the reader starts. The palette and
the rows are looked for at places counted from the start of its window. So of a
file that starts further on in the window the fields are read as from a view of
the file, and are refused alike, but the palette and the rows are taken from other
bytes than the view shows there.
-/
namespace PackageAssets.Bmp

open Reading

/-! ### Fields that are refused -/

/-- The reader has before it what is behind the first bytes of `head`. -/
structure Faces (options : DecoderOptions) (head : List UInt8) (offset : Nat) (r : Decoder) :
    Prop where
  sound : r.stream.Sound
  ahead : r.stream.ahead = head.drop offset
  options_eq : r.found.options = options

/-- Both runs fail, for one reason. -/
abbrev FailAlike {α : Type} (x y : EStateM.Result Error Decoder α) : Prop :=
  InStep (fun _ => True) (fun _ _ => True) (fun _ _ _ _ => False) x y

section Fields

variable {options : DecoderOptions} {head : List UInt8} {offset : Nat} {r r' : Decoder}
  {α β : Type}

theorem Faces.past (faces : Faces options head offset r) (count : Nat) :
    Faces options head (offset + count) (r.past count) := by
  refine ⟨sound_past faces.sound count, ?_, faces.options_eq⟩
  rw [ahead_past, faces.ahead, List.drop_drop]

theorem Faces.skip (faces : Faces options head offset r) (count : Nat) :
    Faces options head (offset + count) { r with
      stream := r.stream.seek (Count.clamp (r.stream.position + count)) } := by
  refine ⟨faces.sound.seek _, ?_, faces.options_eq⟩
  rw [Stream.ahead_skip faces.sound, faces.ahead, List.drop_drop]

section Steps

variable (faces : Faces options head offset r) (faces' : Faces options head offset r')

include faces faces'

/-- Fields are read alike or are missing alike. -/
theorem failAlike_take {step : StreamM α} {width : Nat} {made : List UInt8 → α}
    (takes : Stream.Takes step width made) (positive : 0 < width) {next : α → DecoderM β}
    (rest : offset + width ≤ head.length → ∀ t t', Faces options head (offset + width) t →
      Faces options head (offset + width) t' →
      FailAlike (next (made ((head.drop offset).take width)) t)
        (next (made ((head.drop offset).take width)) t')) :
    FailAlike ((onStream step >>= next) r) ((onStream step >>= next) r') := by
  by_cases enough : width ≤ (head.drop offset).length
  · have first := takes.enough faces.sound (faces.ahead ▸ enough)
    have second := takes.enough faces'.sound (faces'.ahead ▸ enough)
    rw [bind_of_ok (onStream_of_ok first), bind_of_ok (onStream_of_ok second), faces.ahead,
      faces'.ahead]
    rw [List.length_drop] at enough
    exact rest (by omega) _ _ (faces.past width) (faces'.past width)
  · obtain ⟨expected, found, moved, fails⟩ := takes.short (Nat.lt_of_not_le enough)
    rw [bind_of_error (onStream_of_error (fails faces.sound faces.ahead)),
      bind_of_error (onStream_of_error (fails faces'.sound faces'.ahead))]
    exact .error trivial trivial

theorem failAlike_skip (count : Nat) {next : Unit → DecoderM β}
    (rest : ∀ t t', Faces options head (offset + count) t →
      Faces options head (offset + count) t' → FailAlike (next () t) (next () t')) :
    FailAlike ((onStream (Stream.skip count) >>= next) r)
      ((onStream (Stream.skip count) >>= next) r') :=
  rest _ _ (faces.skip count) (faces'.skip count)

theorem soFar_faces : InStep (fun _ => True) (fun _ _ => True)
    (fun c d t t' => (c.options = options ∧ d.options = options) ∧
      Faces options head offset t ∧ Faces options head offset t')
    ((soFar : DecoderM Contents) r) ((soFar : DecoderM Contents) r') :=
  .ok ⟨⟨faces.options_eq, faces'.options_eq⟩, faces, faces'⟩

end Steps

/-- A check that one run does not pass is not passed by the other. -/
theorem failAlike_check {c : Prop} [Decidable c] {e : Error} {next : Unit → DecoderM β}
    (passed : ¬c → FailAlike (next () r) (next () r')) :
    FailAlike ((if c then throw e >>= next else next ()) r)
      ((if c then throw e >>= next else next ()) r') :=
  .ite (fun _ => .stop trivial trivial) passed

/-- Fields that cannot be read are refused for one reason, wherever the reader is. -/
theorem failAlike_decodeHeaders (unreadable : ¬FieldsReadable options head)
    (faces : Faces options head 0 r) (faces' : Faces options head 0 r')
    (fresh : r.found.info = none) (fresh' : r'.found.info = none) :
    FailAlike (decodeHeaders r) (decodeHeaders r') := by
  have four : 0 < 4 := by decide
  have two : 0 < 2 := by decide
  unfold decodeHeaders
  rw [bind_of_ok (soFar_eq_ok r), bind_of_ok (soFar_eq_ok r'), if_neg (by simp [fresh]),
    if_neg (by simp [fresh'])]
  refine failAlike_take faces faces' (Stream.takes_readExact magic.length) (by decide)
    fun _ t t' faces faces' => failAlike_check fun named => ?_
  refine failAlike_skip faces faces' 8 fun t t' faces faces' => ?_
  refine failAlike_take faces faces' (Stream.takes_readNat .little 4) four
    fun _ t t' faces faces' => ?_
  refine failAlike_take faces faces' (Stream.takes_readNat .little 4) four
    fun _ t t' faces faces' => failAlike_check fun size => ?_
  refine failAlike_take faces faces' (Stream.takes_readInt ⟨4, true, .little⟩) four
    fun _ t t' faces faces' => ?_
  refine failAlike_take faces faces' (Stream.takes_readInt ⟨4, true, .little⟩) four
    fun _ t t' faces faces' => failAlike_check fun sides => ?_
  refine (soFar_faces faces faces').bind ?_
  rintro c d t t' ⟨⟨same, same'⟩, faces, faces'⟩
  rw [same, same']
  refine failAlike_check fun within => ?_
  refine failAlike_take faces faces' (Stream.takes_readNat .little 2) two
    fun _ t t' faces faces' => failAlike_check fun planes => ?_
  refine failAlike_take faces faces' (Stream.takes_readNat .little 2) two
    fun _ t t' faces faces' => failAlike_check fun depth => ?_
  refine failAlike_take faces faces' (Stream.takes_readNat .little 4) four
    fun _ t t' faces faces' => failAlike_check fun compression => ?_
  refine failAlike_skip faces faces' 12 fun t t' faces faces' => ?_
  refine failAlike_take faces faces' (Stream.takes_readNat .little 4) four
    fun long t t' faces faces' => ?_
  -- every check was passed, so there is nothing that could be refused
  have known : ¬¬headerSizes.contains (fieldAt head 14 4) = true := size
  have filled : ¬(signedAt head 18 ≤ 0 ∨ signedAt head 22 = 0) := sides
  have deep : ¬¬depths.contains (fieldAt head 28 2) = true := depth
  exact absurd ⟨Decidable.not_not.mp named, long, by simpa using known, by omega, by omega,
    Bool.not_eq_true _ ▸ within, Decidable.not_not.mp planes, by simpa using deep,
    Decidable.not_not.mp compression⟩ unreadable

end Fields

/-! ### Files that start anywhere -/

/--
The reader takes the fields of the headers from `head`, and the palette and the rows from the places
in `all` that they name.
-/
structure ReadsPlaced (options : DecoderOptions) (head all : List UInt8) (r : Decoder) : Prop where
  headers : (∃ t, decodeHeaders r = .ok () t) ↔ HeadersPlaced options head all
  shows : ∀ t, decodeHeaders r = .ok () t →
    Decoder.dimensions t = some ((infoIn head).width, (infoIn head).height) ∧
      Decoder.depth t = some (infoIn head).depth
  image : (∃ image t, decode r = .ok image t) ↔ Placed options head all
  pixels : ∀ image t, decode r = .ok image t →
    image.width = (infoIn head).width ∧ image.height = (infoIn head).height ∧
      ∀ x < image.width, ∀ y < image.height, image.get? x y = some (pixelPlaced head all x y)

/-- Where the stream stands decides only where the fields are read. -/
theorem readsPlaced {s : Stream} (sound : s.Sound) (options : DecoderOptions) :
    ReadsPlaced options s.ahead s.visible (Decoder.start s options) := by
  have headers (reached : Stream → Contents → Prop) :=
    reaches_decodeHeaders_of_ahead (r := Decoder.start s options) reached sound rfl rfl
  have image (reached : Image → Prop) : Reaches (fun image _ => reached image) decode
      (Decoder.start s options) ↔ Placed options s.ahead s.visible ∧
        ∃ image, imagePlaced? s.ahead s.visible = some image ∧ reached image :=
    reaches_decode_of_ahead sound rfl reached
  refine ⟨⟨?_, ?_⟩, ?_, ⟨?_, ?_⟩, ?_⟩
  · rintro ⟨t, read⟩
    exact ((headers fun _ _ => True).mp ⟨(), t, read, trivial⟩).1
  · intro placed
    obtain ⟨_, t, read, -⟩ := (headers fun _ _ => True).mpr ⟨placed, trivial⟩
    exact ⟨t, read⟩
  · intro t read
    have found := ((headers fun _ found => t.found = found).mp ⟨(), t, read, rfl⟩).2
    rw [Decoder.dimensions, Decoder.depth, found]
    exact ⟨rfl, rfl⟩
  · rintro ⟨image', t, read⟩
    exact ((image fun _ => True).mp ⟨image', t, read, trivial⟩).1
  · intro placed
    obtain ⟨image', made, -⟩ := of_imagePlaced? placed
    obtain ⟨image', t, read, -⟩ := (image fun _ => True).mpr ⟨placed, image', made, trivial⟩
    exact ⟨image', t, read⟩
  · intro image' t read
    obtain ⟨placed, _, made, rfl⟩ := (image (image' = ·)).mp ⟨image', t, read, rfl⟩
    obtain ⟨_, again, width, height, pixels⟩ := of_imagePlaced? placed
    cases made.symm.trans again
    exact ⟨width, height, pixels⟩

/--
A reader that starts at a place in a window and one that starts on the view from there read the
same fields: these are refused for the same reason, or both readers show the size and depth they
give. But the palette and the rows are at places counted from the start of the window, so the one
reader takes them from the bytes of the whole window and the other from those of the view.
-/
theorem pixels_from_window_start {c : Stream} (sound : c.Sound) {p : Nat}
    (inside : p ≤ c.length) (options : DecoderOptions) :
    let head := c.visible.drop p
    ∃ rest, c.slice (.included p) .unbounded = .ok rest ∧
      (¬FieldsReadable options head → ∃ e,
        outcomeOf (decodeHeaders (Decoder.start (c.seek p) options)) = .error e ∧
        outcomeOf (decode (Decoder.start (c.seek p) options)) = .error e ∧
        outcomeOf (decodeHeaders (Decoder.start rest options)) = .error e ∧
        outcomeOf (decode (Decoder.start rest options)) = .error e) ∧
      ReadsPlaced options head c.visible (Decoder.start (c.seek p) options) ∧
      ReadsPlaced options head head (Decoder.start rest options) := by
  intro head
  have view := Stream.sound_part sound inside (Nat.le_refl _)
  have shown : (c.part p c.length).visible = head := Stream.visible_rest sound p
  have ahead : (c.part p c.length).ahead = head := shown
  refine ⟨c.part p c.length, Stream.slice_from inside, fun unreadable => ?_, ?_, ?_⟩
  · have here : Faces options head 0 (Decoder.start (c.seek p) options) :=
      ⟨sound.seek p, rfl, rfl⟩
    have there : Faces options head 0 (Decoder.start (c.part p c.length) options) :=
      ⟨view, ahead, rfl⟩
    have fails := failAlike_decodeHeaders unreadable here there rfl rfl
    generalize left : decodeHeaders (Decoder.start (c.seek p) options) = ran at fails
    generalize right : decodeHeaders (Decoder.start (c.part p c.length) options) = ran' at fails
    cases fails with
    | ok together => exact together.elim
    | error =>
      refine ⟨_, rfl, ?_, rfl, ?_⟩
      · rw [decode_eq, bind_of_error left]
        rfl
      · rw [decode_eq, bind_of_error right]
        rfl
  · exact readsPlaced (sound.seek p) options
  · have reads := readsPlaced view options
    rw [ahead, shown] at reads
    exact reads

/-- Four bytes, and a bitmap of one pixel with a palette of black and of one other colour. -/
def behindFour : List UInt8 :=
  [0, 0, 0, 0] ++ magic ++ [0, 0, 0, 0, 0, 0, 0, 0] ++ [62, 0, 0, 0] ++ [40, 0, 0, 0] ++
    [1, 0, 0, 0] ++ [1, 0, 0, 0] ++ [1, 0] ++ [8, 0] ++ [0, 0, 0, 0] ++ List.replicate 12 0 ++
    [2, 0, 0, 0] ++ [0, 0, 0, 0] ++ [0, 0, 0, 0, 10, 20, 30, 0] ++ [1, 0, 0, 0]

/-- The window holds a colour where the view holds the index of the pixel. -/
theorem pixels_from_window_start_behindFour :
    let c := Stream.ofBytes behindFour
    ∃ rest, c.slice (.included 4) .unbounded = .ok rest ∧
      (∃ t, decodeHeaders (Decoder.start (c.seek 4) .usual) = .ok () t) ∧
      (¬∃ image t, decode (Decoder.start (c.seek 4) .usual) = .ok image t) ∧
      (∃ image t, decode (Decoder.start rest .usual) = .ok image t) ∧
      ∀ image t, decode (Decoder.start rest .usual) = .ok image t →
        image.width = 1 ∧ image.height = 1 ∧ image.get? 0 0 = some 0xFF0A141E := by
  intro c
  have sound : c.Sound := Stream.sound_ofBytes (by decide +kernel)
  obtain ⟨rest, made, -, here, there⟩ :=
    pixels_from_window_start sound (p := 4) (by decide +kernel) .usual
  have fields : FieldsReadable .usual (behindFour.drop 4) :=
    ⟨by decide +kernel, by decide +kernel, by decide +kernel, by decide +kernel,
      by decide +kernel, by decide +kernel, by decide +kernel, by decide +kernel,
      by decide +kernel⟩
  have placed : Placed .usual (behindFour.drop 4) (behindFour.drop 4) :=
    ⟨⟨fields, by decide +kernel⟩, by decide +kernel, by decide +kernel⟩
  refine ⟨rest, made, here.headers.mpr ⟨fields, by decide +kernel⟩, fun read => ?_,
    there.image.mpr placed, fun image t read => ?_⟩
  · have index := (here.image.mp read).indices (by decide +kernel) 0 (by decide +kernel) 0
      (by decide +kernel)
    exact absurd index (by decide +kernel)
  · obtain ⟨width, height, pixels⟩ := there.pixels image t read
    have one : (infoIn (c.visible.drop 4)).width = 1 := by decide +kernel
    have one' : (infoIn (c.visible.drop 4)).height = 1 := by decide +kernel
    rw [one] at width
    rw [one'] at height
    refine ⟨width, height, ?_⟩
    rw [pixels 0 (by omega) 0 (by omega)]
    decide +kernel

/-- Four bytes, and a bitmap of one pixel of three bytes. -/
def bareBehindFour : Stream :=
  .ofBytes ([0, 0, 0, 0] ++ magic ++ [0, 0, 0, 0, 0, 0, 0, 0] ++ [54, 0, 0, 0] ++ [40, 0, 0, 0] ++
    [1, 0, 0, 0] ++ [1, 0, 0, 0] ++ [1, 0] ++ [24, 0] ++ [0, 0, 0, 0] ++ List.replicate 12 0 ++
    [0, 0, 0, 0] ++ [0, 0, 0, 0] ++ [1, 2, 3, 0])

/-- From the window it is read without a failure, but with the end of its headers for the pixel. -/
theorem bareBehindFour_pixels_differ :
    ∃ rest, bareBehindFour.slice (.included 4) .unbounded = .ok rest ∧
      (outcomeOf (decode (Decoder.start (bareBehindFour.seek 4) .usual))).toOption.map
        Image.pixels = some [0xFF000000] ∧
      (outcomeOf (decode (Decoder.start rest .usual))).toOption.map Image.pixels =
        some [0xFF010203] :=
  ⟨_, rfl, by decide +kernel, by decide +kernel⟩

end PackageAssets.Bmp
