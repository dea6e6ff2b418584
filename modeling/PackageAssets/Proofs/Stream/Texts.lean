import PackageAssets.Proofs.Stream.Room
import PackageAssets.Proofs.Stream.Seen
import PackageAssets.Proofs.Stream.Terminated
import PackageAssets.Proofs.Text.RoundTrip

/-!
# Terminated texts in a row

Reading in blocks comes to the same as looking at one byte after another: of the
bytes ahead, those up to the first zero are taken, and nothing behind it. So texts
that were written in a row are read back one by one, each of them from where the
one before ended.
-/
namespace PackageAssets.Stream

/-- Reads byte by byte, at most `limit` of them, up to a zero byte, which is consumed. -/
def bytesUntilZero : (limit : Nat) → StreamM (List UInt8)
  | 0 => pure []
  | limit + 1 => do
    match ← readBytes 1 with
    | [] => return []
    | b :: _ =>
      if b = 0 then return []
      return b :: (← bytesUntilZero limit)

/-- Text up to a zero byte or the end of the window, read byte by byte. -/
def readTextBytewise : StreamM String := fun s =>
  (do return Text.ofBytes (← bytesUntilZero (s.remaining + 1)) : StreamM String) s

/-- Terminated texts, one behind the other. -/
def writeTexts : List String → StreamM Unit
  | [] => pure ()
  | text :: texts => do
    writeText text
    writeTexts texts

def readTexts : (count : Nat) → StreamM (List String)
  | 0 => pure []
  | count + 1 => do
    let text ← readText
    return text :: (← readTexts count)

/-- The bytes of a terminated text. -/
def terminated (text : String) : List UInt8 := Text.utf8 text ++ [0]

variable {s t : Stream} {front rest : List UInt8}

/-! ### The bytes before a zero -/

theorem untilZero_append (plain : 0 ∉ front) (rest : List UInt8) :
    Text.untilZero (front ++ rest) = front ++ Text.untilZero rest := by
  apply List.takeWhile_append_of_pos
  intro b member
  simpa using ne_of_mem_of_not_mem member plain

theorem untilZero_of_not_mem (plain : 0 ∉ front) : Text.untilZero front = front := by
  simpa [Text.untilZero] using untilZero_append plain []

theorem terminatedLength_of_not_mem (plain : 0 ∉ front) :
    terminatedLength front = front.length := by
  simp [terminatedLength, untilZero_of_not_mem plain]

theorem untilZero_zero (plain : 0 ∉ front) (rest : List UInt8) :
    Text.untilZero (front ++ 0 :: rest) = front := by
  rw [untilZero_append plain]
  simp [Text.untilZero]

theorem terminatedLength_zero (plain : 0 ∉ front) (rest : List UInt8) :
    terminatedLength (front ++ 0 :: rest) = front.length + 1 := by
  rw [terminatedLength, untilZero_zero plain]
  simp

theorem terminatedLength_cons {b : UInt8} (plain : b ≠ 0) (rest : List UInt8) :
    terminatedLength (b :: rest) = terminatedLength rest + 1 := by
  simp [terminatedLength, Text.untilZero, plain]

theorem not_mem_utf8 {text : String} (nulFree : '\x00' ∉ text.toList) : 0 ∉ Text.utf8 text := by
  intro member
  obtain ⟨c, inText, inChar⟩ := List.mem_flatMap.mp member
  have nonNul : c ≠ '\x00' := ne_of_mem_of_not_mem inText nulFree
  exact Text.ne_zero_of_mem_utf8EncodeChar nonNul 0 inChar rfl

/-! ### Byte by byte -/

theorem bytesUntilZero_eq (sound : s.Sound) {limit : Nat} (enough : s.ahead.length < limit) :
    bytesUntilZero limit s =
      .ok (Text.untilZero s.ahead) (s.seek (s.position + terminatedLength s.ahead)) := by
  induction limit generalizing s with
  | zero => omega
  | succ limit ih =>
    have one := readBytes_eq sound 1
    cases known : s.ahead with
    | nil =>
      rw [known] at one
      rw [bytesUntilZero, bind_of_ok one]
      rfl
    | cons b rest =>
      have moved : min 1 (b :: rest).length = 1 := by simp
      rw [known, moved] at one
      rw [known, List.length_cons] at enough
      rw [bytesUntilZero, bind_of_ok one]
      simp only [List.take_succ_cons, List.take_zero]
      by_cases zero : b = 0
      · simp [zero, Text.untilZero, terminatedLength]
      · have later := ahead_seek_cons known
        have others := ih (sound.seek (s.position + 1)) (by rw [later]; omega)
        rw [later, seek_seek, seek_position, Nat.add_assoc, Nat.add_comm 1] at others
        rw [if_neg zero, terminatedLength_cons zero]
        simp [bind_of_ok others, Text.untilZero, zero]

theorem readText_eq_bytewise (sound : s.Sound) : readText s = readTextBytewise s := by
  have bytewise := bytesUntilZero_eq sound (length_ahead_lt sound)
  rw [readText_eq sound]
  symm
  exact bind_of_ok bytewise

/-! ### One text -/

theorem ahead_behind_zero (known : s.ahead = front ++ 0 :: rest) :
    (s.seek (s.position + (front.length + 1))).ahead = rest := by
  rw [ahead_seek_add, known, ← List.drop_drop, List.drop_left]
  rfl

theorem readText_append (sound : s.Sound) (plain : 0 ∉ front)
    (known : s.ahead = front ++ 0 :: rest) :
    readText s = .ok (Text.ofBytes front) (s.seek (s.position + (front.length + 1))) := by
  rw [readText_eq sound, known, untilZero_zero plain, terminatedLength_zero plain]

/-- Nothing but the bytes ahead decides what is read. -/
theorem readText_alike {u : Stream} (sound : s.Sound) (other : u.Sound) (same : u.ahead = s.ahead) :
    ∃ text count, readText s = .ok text (s.seek (s.position + count)) ∧
      readText u = .ok text (u.seek (u.position + count)) := by
  have read := readText_eq other
  rw [same] at read
  exact ⟨_, _, readText_eq sound, read⟩

theorem readText_unterminated (sound : s.Sound) (plain : 0 ∉ s.ahead) :
    readText s = .ok (Text.ofBytes s.ahead) (s.seek (s.position + s.ahead.length)) := by
  rw [readText_eq sound, untilZero_of_not_mem plain, terminatedLength_of_not_mem plain]

/-! ### Texts in a row -/

theorem emits_writeTexts (texts : List String) :
    Emits (writeTexts texts) (texts.flatMap terminated) := by
  induction texts with
  | nil => exact emits_pure
  | cons text texts ih => exact (emits_writeText text).seq ih

theorem readTexts_append {texts : List String} (nulFree : ∀ text ∈ texts, '\x00' ∉ text.toList)
    (sound : s.Sound) (known : s.ahead = texts.flatMap terminated ++ rest) :
    readTexts texts.length s =
      .ok texts (s.seek (s.position + (texts.flatMap terminated).length)) := by
  induction texts generalizing s with
  | nil => rfl
  | cons text texts ih =>
    have plain := not_mem_utf8 (nulFree text List.mem_cons_self)
    have bytes : s.ahead = Text.utf8 text ++ 0 :: (texts.flatMap terminated ++ rest) := by
      simp [known, terminated]
    have first := readText_append sound plain bytes
    have later := ahead_behind_zero bytes
    have others := ih (fun text member => nulFree text (List.mem_cons_of_mem _ member))
      (sound.seek _) later
    rw [Text.ofBytes_utf8] at first
    rw [List.length_cons, readTexts, bind_of_ok first, bind_of_ok others]
    have size : (terminated text).length = (Text.utf8 text).length + 1 := List.length_append
    simp only [pure_eq_ok, seek_seek, seek_position, List.flatMap_cons, List.length_append, size,
      Nat.add_assoc]

/--
Terminated text is read as if byte by byte: it is that of the bytes ahead up to the first zero,
which is passed with them and nothing behind it, or of all bytes up to the end of the window. What
else is in the source makes no difference. Texts without a NUL that were written in a row are read
back in order, up to where the writing ended.
-/
theorem terminated_texts_read_back (vector : s.OnVector) :
    readText s = readTextBytewise s ∧
    (∀ front rest, 0 ∉ front → s.ahead = front ++ 0 :: rest →
      readText s = .ok (Text.ofBytes front) (s.seek (s.position + (front.length + 1))) ∧
      (s.seek (s.position + (front.length + 1))).ahead = rest) ∧
    (0 ∉ s.ahead →
      readText s = .ok (Text.ofBytes s.ahead) (s.seek (s.position + s.ahead.length))) ∧
    (∀ u : Stream, u.Sound → u.ahead = s.ahead → ∃ text count,
      readText s = .ok text (s.seek (s.position + count)) ∧
      readText u = .ok text (u.seek (u.position + count))) ∧
    ∀ texts : List String, (∀ text ∈ texts, '\x00' ∉ text.toList) →
      (s.Room (texts.flatMap terminated).length → ∃ t, writeTexts texts s = .ok () t) ∧
      ∀ t, writeTexts texts s = .ok () t →
        readTexts texts.length (t.seek s.position) = .ok texts t := by
  have sound := vector.toSound
  refine ⟨readText_eq_bytewise sound, ?_, readText_unterminated sound, ?_, ?_⟩
  · intro front rest plain known
    refine ⟨readText_append sound plain known, ?_⟩
    exact ahead_behind_zero known
  · intro u other same
    exact readText_alike sound other same
  · intro texts nulFree
    have emits := emits_writeTexts texts
    constructor
    · intro room
      obtain ⟨t, written, -⟩ := emits.of_room vector.sink room
      exact ⟨t, written⟩
    · intro t written
      have put := emits.put_of_ok vector.sink written
      -- what was put is ahead again once the position is back
      have after := put.sound_self sound
      obtain ⟨rest, known⟩ := put.ahead_there after
      have read := readTexts_append nulFree (after.seek _) known
      rwa [seek_seek, seek_position, ← put.position, seek_self] at read

/-- A view with room for five more bytes. -/
def fiveLeft : Stream := ⟨.ofBytes (List.replicate 8 0xAA), ⟨.slice 1 7, 1, .none⟩⟩

theorem onVector_fiveLeft : fiveLeft.OnVector := ⟨⟨⟨8, rfl⟩, by decide, by decide⟩, by decide⟩

/-- A letter that is terminated, and one that is not. -/
def oneTerminated : Stream := .ofBytes [0x68, 0, 0x69]

theorem onVector_oneTerminated : oneTerminated.OnVector :=
  ⟨⟨⟨3, rfl⟩, by decide, trivial⟩, by decide⟩

theorem terminated_texts_read_back_three :
    (∃ t, writeTexts ["h", "", "i"] fiveLeft = .ok () t ∧
      readTexts 3 (t.seek 1) = .ok ["h", "", "i"] t) ∧
    readText oneTerminated = .ok (Text.ofBytes [0x68]) (oneTerminated.seek 2) ∧
    readText (oneTerminated.seek 2) = .ok (Text.ofBytes [0x69]) (oneTerminated.seek 3) := by
  obtain ⟨-, -, -, -, back⟩ := terminated_texts_read_back onVector_fiveLeft
  obtain ⟨-, first, -⟩ := terminated_texts_read_back onVector_oneTerminated
  obtain ⟨-, -, last, -⟩ := terminated_texts_read_back (onVector_oneTerminated.seek 2)
  obtain ⟨written, read⟩ := back ["h", "", "i"] (by decide)
  obtain ⟨t, done⟩ := written (by
    change 1 + 5 ≤ 7 - 1 ∧ 1 + 1 + 5 ≤ 2 ^ 63 - 1
    decide)
  refine ⟨⟨t, done, read t done⟩, ?_, ?_⟩
  · exact (first [0x68] [0x69] (by decide) rfl).1
  · exact last (by decide)

end PackageAssets.Stream
