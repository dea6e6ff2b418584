import PackageAssets.Proofs.Png.Grammar

/-!
# Files that stop early

A file that is read has its signature and its chunks up to an end. A copy that
stops before that end stops inside the signature or a chunk, and then one of
the reads is short; or it stops behind whole chunks, and then the walk is over
and what it found decides. Behind the end nothing is looked at.
-/
namespace PackageAssets.Png

/-! ### Bytes of chunks, cut -/

/-- The length of a file of these chunks. -/
def endOf (chunks : List StoredChunk) : Nat :=
  signature.length + (chunks.flatMap StoredChunk.bytes).length

theorem endOf_eq (chunks : List StoredChunk) :
    endOf chunks = 8 + (chunks.flatMap StoredChunk.bytes).length := rfl

/-- The start of a file says which chunk it starts with. -/
theorem StoredChunk.bytes_append_inj {c d : StoredChunk} {rest more : List UInt8}
    (same : c.bytes ++ rest = d.bytes ++ more) : c = d ∧ rest = more := by
  simp only [StoredChunk.bytes, List.append_assoc] at same
  obtain ⟨size, same⟩ := List.append_inj same (by simp only [ByteOrder.length_write])
  have size := congrArg ByteOrder.big.read size
  rw [ByteOrder.read_write .big c.length_payload, ByteOrder.read_write .big d.length_payload]
    at size
  obtain ⟨name, same⟩ := List.append_inj same (c.length_name.trans d.length_name.symm)
  obtain ⟨payload, same⟩ := List.append_inj same size
  obtain ⟨sum, behind⟩ := List.append_inj same (by simp only [ByteOrder.length_write])
  have sum := congrArg ByteOrder.big.read sum
  rw [ByteOrder.read_write .big c.checksum.toNat_lt,
    ByteOrder.read_write .big d.checksum.toNat_lt] at sum
  have checksum := UInt32.toNat_inj.mp sum
  cases c
  cases d
  subst name payload checksum
  exact ⟨rfl, behind⟩

theorem StoredChunk.bytes_append_ne_nil (c : StoredChunk) (rest : List UInt8) :
    c.bytes ++ rest ≠ [] := by
  rw [← List.length_pos_iff, List.length_append, c.length_bytes]
  omega

theorem StoredChunk.cut_take (c : StoredChunk) {n : Nat} (fewer : n < c.bytes.length) :
    Cut (c.bytes.take n) := by
  have size : (c.bytes.take n).length = n := List.length_take_of_le (Nat.le_of_lt fewer)
  by_cases short : n < 8
  · exact Or.inl (by rwa [size])
  have head : (c.bytes.take n).take 4 = ByteOrder.big.write 4 c.payload.length := by
    rw [List.take_take, Nat.min_eq_left (by omega), StoredChunk.bytes]
    exact List.take_left' (ByteOrder.length_write .big 4 _)
  right
  rw [head, ByteOrder.read_write .big c.length_payload, size]
  rw [c.length_bytes] at fewer
  omega

/-- A place before the end of the chunks is in one of them, or at its start. -/
theorem exists_chunk_at (chunks : List StoredChunk) {n : Nat}
    (before : n < (chunks.flatMap StoredChunk.bytes).length) :
    ∃ front c back k, chunks = front ++ c :: back ∧ k < c.bytes.length ∧
      n = (front.flatMap StoredChunk.bytes).length + k := by
  induction chunks generalizing n with
  | nil => exact absurd before (Nat.not_lt_zero n)
  | cons c chunks ih =>
    rw [List.flatMap_cons, List.length_append] at before
    by_cases inside : n < c.bytes.length
    · exact ⟨[], c, chunks, n, rfl, inside, (Nat.zero_add n).symm⟩
    · obtain ⟨front, d, back, k, rfl, room, place⟩ :=
        ih (n := n - c.bytes.length) (by omega)
      refine ⟨c :: front, d, back, k, rfl, room, ?_⟩
      rw [List.flatMap_cons, List.length_append]
      omega

/-- The bytes of a file up to a place in one of its chunks. -/
theorem take_file (front : List StoredChunk) {c : StoredChunk} (back : List StoredChunk)
    (rest : List UInt8) {k : Nat} (room : k < c.bytes.length) :
    (signature ++ ((front ++ c :: back).flatMap StoredChunk.bytes ++ rest)).take
        (endOf front + k) =
      signature ++ (front.flatMap StoredChunk.bytes ++ c.bytes.take k) := by
  rw [List.flatMap_append, List.flatMap_cons, List.append_assoc, List.append_assoc, endOf,
    Nat.add_assoc, List.take_length_add_append, List.take_length_add_append,
    List.take_append_of_le_length (Nat.le_of_lt room)]

/-- The bytes of a file up to a place behind its chunks. -/
theorem take_file_behind (chunks : List StoredChunk) (rest : List UInt8) {n : Nat}
    (behind : endOf chunks ≤ n) :
    (signature ++ (chunks.flatMap StoredChunk.bytes ++ rest)).take n =
      signature ++ (chunks.flatMap StoredChunk.bytes ++ rest.take (n - endOf chunks)) := by
  obtain ⟨k, rfl⟩ := Nat.exists_eq_add_of_le behind
  rw [Nat.add_sub_cancel_left, endOf, Nat.add_assoc, List.take_length_add_append,
    List.take_length_add_append]

theorem Ended.front_inner {front : List StoredChunk} {c : StoredChunk} {back : List StoredChunk}
    {rest : List UInt8} (ended : Ended (front ++ c :: back) rest) :
    ∀ d ∈ front, d.name ≠ Name.terminator := by
  induction front with
  | nil => exact fun d member => absurd member List.not_mem_nil
  | cons d front ih =>
    have inner : d.name ≠ Name.terminator := by
      intro last
      have nothing := (ended_last_iff last).mp ended
      exact absurd nothing (List.append_ne_nil_of_right_ne_nil _ (List.cons_ne_nil c back))
    exact List.forall_mem_cons.mpr ⟨inner, ih ((ended_cons_iff inner).mp ended)⟩

theorem Ended.take {chunks : List StoredChunk} {rest : List UInt8} (ended : Ended chunks rest)
    (n : Nat) : Ended chunks (rest.take n) := by
  rcases ended with last | ⟨rfl, inner⟩
  · exact Or.inl last
  · exact Or.inr ⟨List.take_nil, inner⟩

/-- There is one way to see a file as chunks up to their end. -/
theorem Ended.unique {chunks others : List StoredChunk} {rest more : List UInt8}
    (ended : Ended chunks rest) (ends : Ended others more)
    (same : chunks.flatMap StoredChunk.bytes ++ rest = others.flatMap StoredChunk.bytes ++ more) :
    chunks = others ∧ rest = more := by
  induction chunks generalizing others with
  | nil =>
    cases others with
    | nil => exact ⟨rfl, same⟩
    | cons d others =>
      rw [ended_nil_iff.mp ended, List.flatMap_cons, List.append_assoc] at same
      exact absurd same.symm (d.bytes_append_ne_nil _)
  | cons c chunks ih =>
    cases others with
    | nil =>
      rw [ended_nil_iff.mp ends, List.flatMap_cons, List.append_assoc] at same
      exact absurd same (c.bytes_append_ne_nil _)
    | cons d others =>
      rw [List.flatMap_cons, List.flatMap_cons, List.append_assoc, List.append_assoc] at same
      obtain ⟨rfl, later⟩ := StoredChunk.bytes_append_inj same
      by_cases last : c.name = Name.terminator
      · obtain rfl := (ended_last_iff last).mp ended
        obtain rfl := (ended_last_iff last).mp ends
        exact ⟨rfl, later⟩
      · obtain ⟨rfl, rfl⟩ :=
          ih ((ended_cons_iff last).mp ended) ((ended_cons_iff last).mp ends) later
        exact ⟨rfl, rfl⟩

/-! ### The front of a run -/

theorem Run.of_append {u w : Walk} {front back : List StoredChunk} (run : Run u (front ++ back) w) :
    ∃ v, Run u front v ∧ Run v back w := by
  induction front generalizing u with
  | nil => exact ⟨u, .empty u, run⟩
  | cons c front ih =>
    cases run with
    | next taken run =>
      obtain ⟨v, first, second⟩ := ih run
      exact ⟨v, .next taken first, second⟩

theorem Run.header_ne_none {u w : Walk} {chunks : List StoredChunk} (run : Run u chunks w)
    (headed : u.header ≠ none ∨ ∃ c ∈ chunks, c.name = Name.header) : w.header ≠ none := by
  induction run with
  | empty => simpa using headed
  | next taken run ih =>
    rename_i u v w c chunks
    apply ih
    by_cases named : c.name = Name.header
    · cases taken with
      | header => exact Or.inl (Option.some_ne_none _)
      | data other => exact absurd (named.symm.trans other) (by decide)
      | terminator other => exact absurd (named.symm.trans other) (by decide)
      | other others => exact absurd named (ne_of_other others).1
    · rw [taken.header_eq named]
      simpa [named] using headed

/-! ### The reader on cut files -/

theorem readSignature_short {r : Decoder} (h : r.stream.Sound) {n : Nat} (short : n < 8)
    (known : r.stream.ahead = signature.take n) :
    ∃ stopped, readSignature r = .error (.io (.notEnough signature.length n)) stopped := by
  have size : (signature.take n).length = n := List.length_take_of_le (Nat.le_of_lt short)
  have few : n ≠ signature.length := Nat.ne_of_lt short
  have hread := Stream.readBytes_eq h signature.length
  have whole : (signature.take n).take signature.length = signature.take n :=
    List.take_of_length_le (size.symm ▸ Nat.le_of_lt short)
  rw [known, whole] at hread
  rw [readSignature, bind_of_ok (Reading.onStream_of_ok hread), size,
    if_neg (not_not_intro rfl)]
  dsimp only
  rw [if_pos few]
  exact ⟨_, rfl⟩

/-- A walk that comes to the start of a chunk that is cut fails there for want of bytes. -/
theorem walk_of_cut {rounds : Nat} {r : Decoder} (h : r.stream.Sound)
    (enough : r.stream.ahead.length < rounds) {front : List StoredChunk} {rest : List UInt8}
    (known : r.stream.ahead = front.flatMap StoredChunk.bytes ++ rest)
    (intact : r.found.options.confirmChecksums = true → ∀ c ∈ front, c.Intact)
    (inner : ∀ c ∈ front, c.name ≠ Name.terminator) {w : Walk} (run : Run r.found front w)
    (some : rest ≠ []) (cut : StoredChunk.Cut rest) :
    ∃ expected found stopped, walk rounds r = .error (.io (.notEnough expected found)) stopped := by
  obtain ⟨left, position, notes, room, rfl, same⟩ := walk_front h enough known intact inner run
  obtain ⟨left, rfl⟩ := Nat.exists_eq_add_one_of_ne_zero (Nat.ne_zero_of_lt room)
  have sound := h.seek position
  have more : ¬(r.stream.seek position).atEnd = true :=
    fun atEnd => some ((atEnd_iff sound).mp atEnd)
  obtain ⟨expected, found, stopped, short⟩ :=
    readChunk_cut (r := ⟨r.stream.seek position, w, notes⟩) sound cut
  refine ⟨expected, found, stopped, ?_⟩
  rw [same, walk_more more, bind_of_error short]

/-- What a file lacks that ends behind these chunks, none of which is the last. -/
def lackingBehind (strict : Bool) (chunks : List StoredChunk) : Option Error :=
  if ∀ c ∈ chunks, c.name ≠ Name.header then some .missingHeader
  else if dataOf chunks = [] then some .noImageData
  else if strict then some .missingTerminator
  else none

theorem Run.lacking_eq {options : DecoderOptions} {chunks : List StoredChunk} {w : Walk}
    (run : Run ⟨options, none, false, false, []⟩ chunks w)
    (inner : ∀ c ∈ chunks, c.name ≠ Name.terminator) :
    w.lacking = lackingBehind options.strict chunks := by
  have collected : w.compressed = dataOf chunks := run.compressed_eq
  have unterminated : w.terminated = false := by
    rw [← Bool.not_eq_true, run.terminated_iff]
    rintro (seen | ⟨c, member, last⟩)
    · cases seen
    · exact inner c member last
  rw [Walk.lacking, lackingBehind, collected, unterminated, run.options_eq]
  by_cases headless : ∀ c ∈ chunks, c.name ≠ Name.header
  · rw [if_pos headless, if_pos (run.header_eq headless)]
  have headed : ∃ c ∈ chunks, c.name = Name.header := by simpa using headless
  rw [if_neg headless, if_neg (run.header_ne_none (Or.inr headed))]
  simp

/-- Over chunks up to their end, the reader concludes from what their run finds. -/
theorem decodeHeaders_of_run {s : Stream} (h : s.Sound) {options : DecoderOptions}
    {chunks : List StoredChunk} {rest : List UInt8}
    (known : s.ahead = signature ++ (chunks.flatMap StoredChunk.bytes ++ rest))
    (intact : options.confirmChecksums = true → ∀ c ∈ chunks, c.Intact) (ended : Ended chunks rest)
    {w : Walk} (run : Run ⟨options, none, false, false, []⟩ chunks w) :
    ∃ stopped notes, stopped.position = s.position + endOf chunks ∧
      decodeHeaders (Decoder.start s options) =
        match w.lacking with
        | some e => .error e ⟨stopped, w, notes⟩
        | none => .ok () ⟨stopped, { w with complete := true }, notes⟩ := by
  obtain ⟨behind, steps⟩ := decodeHeaders_start_eq h options known
  have enough := Nat.lt_succ_of_le (Nat.le_of_eq (congrArg List.length behind))
  obtain ⟨walkNotes, walked⟩ :=
    walk_of_run (r := begun s options) (h.seek _) enough behind intact ended run
  obtain ⟨notes, concluded⟩ := concludeWalk_eq ⟨_, w, walkNotes⟩
  have steps := steps.trans ((bind_of_ok walked).trans concluded)
  have place : ((begun s options).stream.seek ((begun s options).stream.position +
      (chunks.flatMap StoredChunk.bytes).length)).position = s.position + endOf chunks := by
    rw [endOf, ← Nat.add_assoc]
    rfl
  cases lacks : w.lacking with
  | some e =>
    rw [lacks] at steps
    exact ⟨_, walkNotes, place, steps⟩
  | none =>
    rw [lacks] at steps
    exact ⟨_, notes, place, steps⟩

/-- What is read has chunks up to its end, and their run finds what the reader found. -/
theorem run_of_decodeHeaders {s : Stream} (h : s.Sound) {options : DecoderOptions}
    {after : Decoder} (read : decodeHeaders (Decoder.start s options) = .ok () after) :
    ∃ chunks rest w, s.ahead = signature ++ (chunks.flatMap StoredChunk.bytes ++ rest) ∧
      (options.confirmChecksums = true → ∀ c ∈ chunks, c.Intact) ∧ Ended chunks rest ∧
      Run ⟨options, none, false, false, []⟩ chunks w ∧ w.lacking = none ∧
      after.stream.position = s.position + endOf chunks ∧
      after.found = { w with complete := true } := by
  obtain ⟨chunks, rest, header, known, wellFormed⟩ := wellFormed_of_decodeHeaders h read
  obtain ⟨w, run, -⟩ := wellFormed.exists_run
  obtain ⟨stopped, notes, place, same⟩ :=
    decodeHeaders_of_run h known wellFormed.intact wellFormed.ended run
  refine ⟨chunks, rest, w, known, wellFormed.intact, wellFormed.ended, run, ?_⟩
  rw [read] at same
  cases lacks : w.lacking with
  | some e =>
    rw [lacks] at same
    cases same
  | none =>
    rw [lacks] at same
    cases same
    exact ⟨rfl, place, rfl⟩

/-! ### The three kinds of places to stop -/

section

variable {t : Stream} (sound : t.Sound) {options : DecoderOptions}
include sound

theorem decodeHeaders_behind {chunks : List StoredChunk} {rest : List UInt8}
    (known : t.ahead = signature ++ (chunks.flatMap StoredChunk.bytes ++ rest))
    (intact : options.confirmChecksums = true → ∀ c ∈ chunks, c.Intact) (ended : Ended chunks rest)
    {w : Walk} (run : Run ⟨options, none, false, false, []⟩ chunks w) (whole : w.lacking = none) :
    ∃ again, decodeHeaders (Decoder.start t options) = .ok () again ∧
      again.found = { w with complete := true } ∧
      again.stream.position = t.position + endOf chunks := by
  obtain ⟨stopped, notes, place, steps⟩ := decodeHeaders_of_run sound known intact ended run
  rw [whole] at steps
  exact ⟨_, steps, rfl, place⟩

theorem decodeHeaders_between {front back : List StoredChunk}
    (known : t.ahead = signature ++ front.flatMap StoredChunk.bytes)
    (intact : options.confirmChecksums = true → ∀ c ∈ front, c.Intact)
    (inner : ∀ c ∈ front, c.name ≠ Name.terminator) {v w : Walk}
    (first : Run ⟨options, none, false, false, []⟩ front v) (second : Run v back w) :
    match lackingBehind options.strict front with
    | some e => ∃ stopped, decodeHeaders (Decoder.start t options) = .error e stopped
    | none => ∃ again, decodeHeaders (Decoder.start t options) = .ok () again ∧
        again.found.header = w.header ∧ again.found.compressed = dataOf front := by
  rw [← List.append_nil (front.flatMap _)] at known
  obtain ⟨stopped, notes, -, steps⟩ :=
    decodeHeaders_of_run sound known intact (Or.inr ⟨rfl, inner⟩) first
  rw [first.lacking_eq inner] at steps
  cases lacks : lackingBehind options.strict front with
  | some e =>
    rw [lacks] at steps
    exact ⟨_, steps⟩
  | none =>
    rw [lacks] at steps
    rw [← first.lacking_eq inner, Walk.lacking_eq_none_iff] at lacks
    obtain ⟨⟨header, found⟩, -⟩ := lacks
    have kept := second.header_eq (second.names_ne_of_known (by simp [found]))
    exact ⟨_, steps, kept.symm, first.compressed_eq⟩

theorem decodeHeaders_short {n : Nat} (short : n < 8) (known : t.ahead = signature.take n) :
    ∃ expected found stopped, decodeHeaders (Decoder.start t options) =
      .error (.io (.notEnough expected found)) stopped := by
  obtain ⟨stopped, failed⟩ := readSignature_short (r := Decoder.start t options) sound short known
  exact ⟨_, _, stopped, (decodeHeaders_eq rfl).trans (bind_of_error failed)⟩

theorem decodeHeaders_inside {chunks : List StoredChunk} {rest : List UInt8} {n : Nat}
    (known : t.ahead = (signature ++ (chunks.flatMap StoredChunk.bytes ++ rest)).take n)
    (intact : options.confirmChecksums = true → ∀ c ∈ chunks, c.Intact) (ended : Ended chunks rest)
    {w : Walk} (run : Run ⟨options, none, false, false, []⟩ chunks w) (before : n < endOf chunks)
    (inside : ∀ front back, chunks = front ++ back → n ≠ endOf front) :
    ∃ expected found stopped, decodeHeaders (Decoder.start t options) =
      .error (.io (.notEnough expected found)) stopped := by
  by_cases short : n < 8
  · rw [List.take_append_of_le_length (Nat.le_of_lt short)] at known
    exact decodeHeaders_short sound short known
  obtain ⟨front, c, back, k, rfl, ends, offset⟩ :=
    exists_chunk_at chunks (n := n - 8) (by rw [endOf_eq] at before; omega)
  have there : n = endOf front + k := by
    rw [endOf_eq]
    omega
  have begins : 0 < k := by
    have := inside front (c :: back) rfl
    omega
  have some : c.bytes.take k ≠ [] := by
    rw [← List.length_pos_iff, List.length_take_of_le (Nat.le_of_lt ends)]
    exact begins
  obtain ⟨v, first, -⟩ := run.of_append
  rw [there, take_file front back rest ends] at known
  obtain ⟨behind, steps⟩ := decodeHeaders_start_eq sound options known
  have enough := Nat.lt_succ_of_le (Nat.le_of_eq (congrArg List.length behind))
  obtain ⟨expected, found, stopped, walked⟩ := walk_of_cut (r := begun t options) (sound.seek _)
    enough behind (fun confirm d member => intact confirm d (List.mem_append_left _ member))
    ended.front_inner first some (c.cut_take ends)
  exact ⟨expected, found, stopped, steps.trans (bind_of_error walked)⟩

end

/--
The first look at a file that is read goes from the signature over its chunks to their end.
A copy of its first `n` bytes is read like it when `n` is not before the end. When `n` is
behind whole chunks, what they hold decides. Everywhere else the bytes are too few for a read.
-/
theorem decodeHeaders_of_cut {s : Stream} (h : s.Sound) {options : DecoderOptions}
    {after : Decoder} (read : decodeHeaders (Decoder.start s options) = .ok () after) :
    (∃ chunks rest, s.ahead = signature ++ (chunks.flatMap StoredChunk.bytes ++ rest) ∧
      Ended chunks rest) ∧
    ∀ chunks rest, s.ahead = signature ++ (chunks.flatMap StoredChunk.bytes ++ rest) →
      Ended chunks rest → after.stream.position = s.position + endOf chunks ∧
      ∀ (t : Stream) (n : Nat), t.Sound → t.ahead = s.ahead.take n →
        (endOf chunks ≤ n → ∃ again, decodeHeaders (Decoder.start t options) = .ok () again ∧
          again.found = after.found ∧ again.stream.position = t.position + endOf chunks) ∧
        (∀ front back, chunks = front ++ back → back ≠ [] → n = endOf front →
          match lackingBehind options.strict front with
          | some e => ∃ stopped, decodeHeaders (Decoder.start t options) = .error e stopped
          | none => ∃ again, decodeHeaders (Decoder.start t options) = .ok () again ∧
              again.found.header = after.found.header ∧
              again.found.compressed = dataOf front) ∧
        (n < endOf chunks → (∀ front back, chunks = front ++ back → n ≠ endOf front) →
          ∃ expected found stopped, decodeHeaders (Decoder.start t options) =
              .error (.io (.notEnough expected found)) stopped ∧
            (Error.io (.notEnough expected found)).kind = .truncated) := by
  obtain ⟨chunks, rest, w, known, intact, ended, run, whole, place, same⟩ :=
    run_of_decodeHeaders h read
  refine ⟨⟨chunks, rest, known, ended⟩, fun others more known' ends => ?_⟩
  rw [known, List.append_right_inj] at known'
  obtain ⟨rfl, rfl⟩ := ended.unique ends known'
  refine ⟨place, fun t n sound cut => ?_⟩
  rw [known] at cut
  refine ⟨fun behind => ?_, fun front back split more boundary => ?_, fun before inside => ?_⟩
  · rw [take_file_behind chunks rest behind] at cut
    rw [same]
    exact decodeHeaders_behind sound cut intact (ended.take _) run whole
  · obtain ⟨c, back, rfl⟩ := List.exists_cons_of_ne_nil more
    subst split
    obtain ⟨v, first, second⟩ := run.of_append
    have here := take_file front back rest (k := 0) (c := c)
      (Nat.lt_of_lt_of_eq (Nat.succ_pos _) c.length_bytes.symm)
    rw [Nat.add_zero, List.take_zero, List.append_nil, ← boundary] at here
    have header : after.found.header = w.header := by rw [same]
    rw [here] at cut
    rw [header]
    exact decodeHeaders_between sound cut
      (fun confirm d member => intact confirm d (List.mem_append_left _ member))
      ended.front_inner first second
  · obtain ⟨expected, found, stopped, failed⟩ :=
      decodeHeaders_inside sound cut intact ended run before inside
    exact ⟨expected, found, stopped, failed, rfl⟩

/-- A one-pixel file that stops behind its header, inside its data, and behind its data. -/
theorem decodeHeaders_of_cut_pixel :
    let file := signature ++
      ((plainChunks ⟨1, 1, 8, .rgb⟩ [7] (by decide)).flatMap StoredChunk.bytes ++ [])
    let look := fun n => decodeHeaders (Decoder.start (.ofBytes (file.take n)) .strictest)
    (∃ stopped, look 33 = .error .noImageData stopped) ∧
      (∃ expected found stopped, look 40 = .error (.io (.notEnough expected found)) stopped) ∧
      ∃ stopped, look 46 = .error .missingTerminator stopped := by
  intro file look
  have wellFormed : WellFormed .strictest (plainChunks ⟨1, 1, 8, .rgb⟩ [7] (by decide)) []
      ⟨1, 1, 8, .rgb⟩ :=
    wellFormed_plainChunks ⟨by decide, by decide, by decide, by decide, by decide, rfl⟩ _
      (by decide) _
  have size : file.length = 58 := by
    simp [file, plainChunks, StoredChunk.length_bytes, StoredChunk.sealed, Header.length_payload,
      signature]
  have sound : (Stream.ofBytes file).Sound := Stream.sound_ofBytes (by rw [size]; decide)
  have part (n : Nat) : (Stream.ofBytes (file.take n)).Sound := by
    refine Stream.sound_ofBytes (Nat.lt_of_le_of_lt (List.length_take_le' n file) ?_)
    rw [size]
    decide
  obtain ⟨after, read, -⟩ := decodeHeaders_wellFormed sound rfl wellFormed
  obtain ⟨-, cut⟩ := (decodeHeaders_of_cut sound read).2 _ _ rfl wellFormed.ended
  have places (front : List StoredChunk) (back : List StoredChunk)
      (split : plainChunks ⟨1, 1, 8, .rgb⟩ [7] (by decide) = front ++ back) : 40 ≠ endOf front := by
    have here : front = (plainChunks ⟨1, 1, 8, .rgb⟩ [7] (by decide)).take front.length := by
      rw [split, List.take_left]
    rw [here]
    rcases front.length with _ | _ | _ | n
    · decide
    · decide
    · decide
    · rw [List.take_of_length_le (Nat.le_add_left 3 n)]
      decide
  obtain ⟨expected, found, stopped, short, -⟩ := (cut _ 40 (part 40) rfl).2.2 (by decide) places
  exact ⟨(cut _ 33 (part 33) rfl).2.1 (List.take 1 _) _ (List.take_append_drop 1 _).symm
      (List.cons_ne_nil _ _) rfl, ⟨expected, found, stopped, short⟩,
    (cut _ 46 (part 46) rfl).2.1 (List.take 2 _) _ (List.take_append_drop 2 _).symm
      (List.cons_ne_nil _ _) rfl⟩

end PackageAssets.Png
