import PackageAssets.Command.Convert
import PackageAssets.Proofs.Files.Store
import PackageAssets.Proofs.Png.Rereading
import PackageAssets.Proofs.Stream.Ends

/-!
# Converting keeps files safe

A conversion has two halves. The first ends with the bytes of the new file and
only reads, whether it fails or not. The second opens the output, and once it is
open nothing fails any more. So a conversion that fails has changed no file, and
one that does not has changed the output, from which the image is read again.
-/
namespace PackageAssets.Command

/--
A command that failed has left the files it found, and one that did not has left files and a result
of which `done` holds.
-/
abbrev Settles {α : Type} (files : Files) (done : α → Files → Prop) :
    EStateM.Result Error Console α → Prop :=
  Ends (fun c => c.files = files) fun a c => done a c.files

/-- A command that leaves the files it found, and yields what `made` holds of if it yields. -/
abbrev Spares {α : Type} (files : Files) (made : α → Prop) :
    EStateM.Result Error Console α → Prop :=
  Settles files fun a left => made a ∧ left = files

section Steps

variable {α : Type} {files : Files} {c : Console} (here : c.files = files)

include here

theorem note_spares (level : Level) (origin : Origin) (text : String) :
    Spares files (fun _ => True) (note level origin text c) := .ok ⟨trivial, here⟩

theorem checkOutput_spares (path : String) : Spares files (fun _ => True) (checkOutput path c) := by
  unfold checkOutput
  cases (Path.extension? path).bind ImageFormat.ofExtension? with
  | none => exact .ok ⟨trivial, here⟩
  | some format =>
    cases format with
    | png => exact .ok ⟨trivial, here⟩
    | bmp => exact .error here
    | tga => exact .error here

theorem noted_spares {ε : Type} (wrap : ε → Error) (work : Noted ε α) :
    Spares files (fun a => outcomeOf (work []) = .ok a) (noted wrap work c) := by
  unfold noted
  cases work [] with
  | ok a notes => exact .ok ⟨rfl, here⟩
  | error e notes => exact .error here

theorem openFile_read_spares (path : String) :
    Spares files (fun opened => opened.source = ⟨[], .directory⟩ ∨
      ∃ content, files.content? path = some content ∧
        opened.source = .ofFile content false files.furthest)
      (openFile path .read c) := by
  refine (note_spares here _ _ _).bind fun _ c ⟨_, here⟩ => ?_
  rw [bind_of_ok (get_eq_ok c), here]
  cases opened : files.openPath path .read with
  | error fault => exact .error here
  | ok opened =>
    obtain ⟨same, source⟩ := Files.of_openPath_read ‹_›
    exact .ok ⟨source, same⟩

/-- A created file stands where the path leads, and is empty. -/
theorem openFile_create_settles (path : String) :
    Settles files (fun opened left => ∃ place, files.locate path = .ok place ∧
      files.isDirectory place = false ∧ opened = ⟨place, .ofFile [] true files.furthest, left⟩ ∧
      left = files.store place []) (openFile path .create c) := by
  refine (note_spares here _ _ _).bind fun _ c ⟨_, here⟩ => ?_
  rw [bind_of_ok (get_eq_ok c), here]
  cases opened : files.openPath path .create with
  | error fault => exact .error here
  | ok opened =>
    obtain ⟨place, located, plain, rfl⟩ := Files.of_openPath_create ‹_›
    exact .ok ⟨place, located, plain, rfl, rfl⟩

end Steps

/-- Writing to an empty file makes it hold what is written. -/
theorem writeBytes_created (bytes : List UInt8) (furthest : Nat) :
    ∃ t, Stream.writeBytes bytes (Stream.onSource (.ofFile [] true furthest)) = .ok () t ∧
      t.source.content = bytes := by
  have alone : Source.overwrite [] 0 bytes = bytes := by
    simp [Source.overwrite]
  by_cases nothing : bytes = []
  · subst nothing
    exact ⟨_, rfl, rfl⟩
  · have written : Source.writeAt (.ofFile [] true furthest) 0 bytes =
        .ok (.ofFile bytes true furthest) := by
      simp [Source.writeAt, Source.ofFile, nothing, alone]
    have place : (Stream.onSource (.ofFile [] true furthest)).absolute = 0 := rfl
    refine ⟨⟨.ofFile bytes true furthest, ⟨.root, 0 + bytes.length, .none⟩⟩, ?_, rfl⟩
    rw [Stream.writeBytes, place]
    dsimp only [Stream.window, Stream.onSource, Cursor.root, Cursor.start]
    rw [written]
    rfl

section Convert

variable (inflate : Png.Inflater) (compress : Png.Compressor) (input output : String)
  (decoder : DecoderOptions) (encoder : EncoderOptions)

/-- All that happens before the output is opened. -/
def prepare : CommandM (List UInt8) := do
  checkOutput output
  let opened ← openFile input .read
  let (format, image) ←
    noted .image (ImageFormat.decodeAny inflate (Stream.onSource opened.source) decoder)
  note .info .conversion
    s!"Decoded {input} as {format.name}, {image.width}x{image.height}"
  noted .image (ImageFormat.png.encodeWith compress image encoder)

/-- Opens the output and writes to it. -/
def deliver (bytes : List UInt8) : CommandM Nat := do
  let sink ← openFile output .create
  onOpened sink (Stream.writeBytes bytes)
  note .debug .conversion s!"Wrote {bytes.length} bytes to {output}"
  return bytes.length

theorem convertFileWith_eq :
    convertFileWith inflate compress input output decoder encoder =
      prepare inflate compress input output decoder encoder >>= deliver output := by
  simp only [convertFileWith, prepare, bind_assoc]
  rfl

/-- The image of the input was decoded, and `bytes` is what it is encoded to. -/
def Prepared (files : Files) (bytes : List UInt8) : Prop :=
  ∃ content format image, files.content? input = some content ∧
    outcomeOf (ImageFormat.decodeAny inflate
      (Stream.onSource (.ofFile content false files.furthest)) decoder []) = .ok (format, image) ∧
    Png.encodeToBytesWith compress image encoder = .ok bytes

theorem not_decodeAny_directory (options : DecoderOptions) {a : ImageFormat × Image} :
    outcomeOf (ImageFormat.decodeAny inflate (Stream.onSource ⟨[], .directory⟩) options []) ≠
      .ok a := by
  have unknown : (ImageFormat.guess (Stream.onSource ⟨[], .directory⟩)).1 = none := rfl
  rw [ImageFormat.decodeAny_eq, unknown]
  exact nofun

theorem of_encodeWith_png {image : Image} {bytes : List UInt8}
    (encoded : outcomeOf (ImageFormat.png.encodeWith compress image encoder []) = .ok bytes) :
    Png.encodeToBytesWith compress image encoder = .ok bytes := by
  unfold ImageFormat.encodeWith at encoded
  cases made : Png.encodeToBytesWith compress image encoder with
  | error e =>
    rw [made] at encoded
    cases encoded
  | ok found =>
    rw [made] at encoded
    cases encoded
    rfl

variable {files : Files} {c : Console} (here : c.files = files)

include here

theorem prepare_spares : Spares files (Prepared inflate compress input decoder encoder files)
    (prepare inflate compress input output decoder encoder c) := by
  refine (checkOutput_spares here output).bind fun _ c ⟨_, here⟩ => ?_
  refine (openFile_read_spares here input).bind fun opened c ⟨source, here⟩ => ?_
  refine (noted_spares here _ _).bind fun ⟨format, image⟩ c ⟨decoded, here⟩ => ?_
  refine (note_spares here _ _ _).bind fun _ c ⟨_, here⟩ => ?_
  refine (noted_spares here _ _).mono fun bytes c ⟨encoded, kept⟩ => ⟨?_, kept⟩
  rcases source with directory | ⟨content, there, file⟩
  · rw [directory] at decoded
    exact absurd decoded (not_decodeAny_directory inflate decoder)
  · rw [file] at decoded
    exact ⟨content, format, image, there, decoded, of_encodeWith_png compress encoder encoded⟩

theorem deliver_settles (bytes : List UInt8) :
    Settles files (fun count left => count = bytes.length ∧ ∃ place,
      files.locate output = .ok place ∧ files.isDirectory place = false ∧
      left = files.store place bytes) (deliver output bytes c) := by
  refine (openFile_create_settles here output).bind fun opened c created => ?_
  obtain ⟨place, located, plain, rfl, left⟩ := created
  obtain ⟨t, written, holds⟩ := writeBytes_created bytes files.furthest
  -- the output is open and empty; no step from here on can fail
  have stored :
      onOpened ⟨place, .ofFile [] true files.furthest, c.files⟩ (Stream.writeBytes bytes) c =
      .ok () { c with files := files.store place bytes } := by
    rw [onOpened, written]
    dsimp only
    rw [holds, left, Files.store_store]
  rw [bind_of_ok stored]
  exact .ok ⟨rfl, place, located, plain, rfl⟩

omit here

/-- What a conversion that did not fail has done, with the output at `place` holding `bytes`. -/
theorem convertFileWith_settles (c : Console) :
    Settles c.files (fun count left => ∃ place bytes,
      Prepared inflate compress input decoder encoder c.files bytes ∧ count = bytes.length ∧
      c.files.locate output = .ok place ∧ c.files.isDirectory place = false ∧
      left = c.files.store place bytes)
      (convertFileWith inflate compress input output decoder encoder c) := by
  rw [convertFileWith_eq]
  refine (prepare_spares inflate compress input output decoder encoder rfl).bind
    fun bytes c' ⟨prepared, here⟩ => ?_
  refine (deliver_settles output here bytes).mono fun count c delivered => ?_
  obtain ⟨counted, place, located, plain, stored⟩ := delivered
  exact ⟨place, bytes, prepared, counted, located, plain, stored⟩

/--
A conversion that fails, for whatever reason, has left every file as it was. One that does not
leaves at the place of the output, which may be that of the input, just the bytes it counts, and
every other file as it was. The output is found to be PNG, and to hold the image that was found in
the input, by every reader that assumes the order of channels it was written in and admits its size.
The rows of the image are in memory, and the disk is large enough for whatever goes into one chunk.
-/
theorem convertFile_faithful (before : Console)
    (inflates : ∀ confirm level data, data.length ≤ Source.longestVector →
      inflate confirm (compress level data) = .ok data)
    (filled : ∀ level data, compress level data ≠ [])
    (inMemory : ∀ content found, before.files.content? input = some content →
      outcomeOf (ImageFormat.decodeAny inflate
        (Stream.onSource (.ofFile content false before.files.furthest)) decoder []) = .ok found →
      (Png.dataOfImage encoder.order found.2).length ≤ Source.longestVector)
    (disk : 2 ^ 33 ≤ before.files.furthest) :
    (∀ e after,
      convertFileWith inflate compress input output decoder encoder before = .error e after →
        after.files = before.files) ∧
    ∀ count after,
      convertFileWith inflate compress input output decoder encoder before = .ok count after →
      ∃ place bytes content format image,
        before.files.locate output = .ok place ∧
        (∀ other, other ≠ place → after.files.find? other = before.files.find? other) ∧
        after.files.content? output = some bytes ∧ bytes.length = count ∧
        before.files.content? input = some content ∧
        outcomeOf (ImageFormat.decodeAny inflate
          (Stream.onSource (.ofFile content false before.files.furthest)) decoder []) =
            .ok (format, image) ∧
        ∀ reader : DecoderOptions, reader.order = encoder.order → image.width ≤ reader.maxWidth →
          image.height ≤ reader.maxHeight →
          ∃ opened, after.files.openPath output .read = .ok opened ∧
            opened.source = .ofFile bytes false before.files.furthest ∧
            outcomeOf (ImageFormat.decodeAny inflate (Stream.onSource opened.source) reader []) =
              .ok (.png, image) := by
  have settles := convertFileWith_settles inflate compress input output decoder encoder before
  constructor
  · intro e after failed
    exact settles.of_error failed
  · intro count after converted
    obtain ⟨place, bytes, ⟨content, format, image, there, decoded, encoded⟩, rfl, located,
      plain, stored⟩ := settles.of_ok converted
    refine ⟨place, bytes, content, format, image, located, ?_, ?_, rfl, there, decoded, ?_⟩
    · intro other elsewhere
      rw [stored, Files.find?_store, if_neg elsewhere]
    · rw [stored]
      exact Files.content?_stored plain located
    · intro reader order wide tall
      have held := inMemory content _ there decoded
      refine ⟨⟨place, .ofFile bytes false before.files.furthest, after.files⟩, ?_, rfl, ?_⟩
      · rw [stored]
        exact Files.openPath_stored plain located
      · exact Png.decodeAny_written encoded (inflates _ _ _ held) (filled _ _) held order
          ⟨wide, tall⟩ disk false []

/-- A TGA that is overwritten with the PNG it is converted to. -/
theorem convertFile_faithful_in_place :
    let before : Console :=
      ⟨(Files.empty (2 ^ 40)).withFile "picture" ImageFormat.onePixelTarga.source.content, []⟩
    ∃ after bytes, convertFileWith .zlib .storing "picture" "picture" .usual .usual before =
        .ok bytes.length after ∧ bytes.length = 73 ∧
      after.files.content? "picture" = some bytes ∧
      ∃ opened, after.files.openPath "picture" .read = .ok opened ∧
        outcomeOf (ImageFormat.decodeAny .zlib (Stream.onSource opened.source) .usual []) =
          .ok (.png, ⟨1, 1, [0xFF0A141E], rfl⟩) := by
  intro before
  have stands : before.files.content? "picture" =
    some ImageFormat.onePixelTarga.source.content := rfl
  have read : outcomeOf (ImageFormat.decodeAny .zlib
      (Stream.onSource (.ofFile ImageFormat.onePixelTarga.source.content false (2 ^ 40)))
      .usual []) = .ok (.tga, ⟨1, 1, [0xFF0A141E], rfl⟩) := rfl
  have small : ∀ content found, before.files.content? "picture" = some content →
      outcomeOf (ImageFormat.decodeAny .zlib
        (Stream.onSource (.ofFile content false before.files.furthest)) .usual []) = .ok found →
      (Png.dataOfImage EncoderOptions.usual.order found.2).length ≤ Source.longestVector := by
    intro content found there decoded
    cases stands.symm.trans there
    cases read.symm.trans decoded
    exact (by decide : 5 ≤ Source.longestVector)
  have filled (level : Nat) (data : List UInt8) : Png.Compressor.storing level data ≠ [] := by
    simp [Png.Compressor.storing, Zlib.store]
  obtain ⟨-, faithful⟩ := convertFile_faithful .zlib .storing "picture" "picture" .usual .usual
    before (fun confirm _ data _ => Zlib.inflate_store confirm data) filled small
    (by decide : 2 ^ 33 ≤ 2 ^ 40)
  have counted : (outcomeOf (convertFileWith .zlib .storing "picture" "picture" .usual .usual
      before)).toOption = some 73 := by decide +kernel
  cases converted : convertFileWith .zlib .storing "picture" "picture" .usual .usual before with
  | error e after =>
    rw [converted] at counted
    cases counted
  | ok count after =>
    rw [converted] at counted
    cases counted
    obtain ⟨_, bytes, content, format, image, -, -, holds, size, there, decoded, again⟩ :=
      faithful _ _ converted
    cases stands.symm.trans there
    cases read.symm.trans decoded
    obtain ⟨opened, opens, -, found⟩ := again .usual rfl (by decide) (by decide)
    exact ⟨after, bytes, size ▸ rfl, size, holds, opened, opens, found⟩

end Convert

end PackageAssets.Command
