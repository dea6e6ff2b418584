import PackageAssets.Proofs.Png.Walk

/-!
# The grammar of chunks

`WellFormed` says which lists of chunks make a PNG, without any order of
reading. A run from nothing exists over just these lists, except that it does
not see whether there is data and a last chunk; the reader looks at that when
the run is over. So the reader accepts the grammar and nothing else.
-/
namespace PackageAssets.Png

/-- The payloads of the data chunks, one after the other. -/
def dataOf (chunks : List StoredChunk) : List UInt8 :=
  chunks.flatMap fun c => if c.name = Name.data then c.payload else []

/-- The chunks in front of `rest` make a PNG with this header, for a reader with these options. -/
structure WellFormed (options : DecoderOptions) (chunks : List StoredChunk) (rest : List UInt8)
    (header : Header) : Prop where
  intact : options.confirmChecksums = true → ∀ c ∈ chunks, c.Intact
  ended : Ended chunks rest
  terminated : options.strict = true → ∃ c ∈ chunks, c.name = Name.terminator
  /-- One chunk holds the header, and no data comes before it. -/
  headed : ∃ before c after, chunks = before ++ c :: after ∧ c.name = Name.header ∧
    c.payload = header.payload ∧ (∀ d ∈ before, d.name ≠ Name.header ∧ d.name ≠ Name.data) ∧
    ∀ d ∈ after, d.name ≠ Name.header
  admitted : header.Admitted options
  filled : dataOf chunks ≠ []
  allowed : options.strict = true → ∀ c ∈ chunks, ¬c.Mandatory

theorem dataOf_cons (c : StoredChunk) (chunks : List StoredChunk) :
    dataOf (c :: chunks) = (if c.name = Name.data then c.payload else []) ++ dataOf chunks :=
  List.flatMap_cons

/-! ### What a run finds -/

namespace Taken

variable {u v : Walk} {c : StoredChunk}

theorem compressed_eq (taken : Taken u c v) :
    v.compressed = u.compressed ++ if c.name = Name.data then c.payload else [] := by
  cases taken with
  | header named => simp [named, Name.header, Name.data]
  | data named => simp [named]
  | terminator named => simp [named, Name.terminator, Name.data]
  | other named =>
    obtain ⟨-, data, -⟩ := ne_of_other named
    simp [data]

theorem terminated_iff (taken : Taken u c v) :
    v.terminated = true ↔ u.terminated = true ∨ c.name = Name.terminator := by
  cases taken with
  | header named => simp [named, Name.header, Name.terminator]
  | data named => simp [named, Name.data, Name.terminator]
  | terminator named => simp [named]
  | other named =>
    obtain ⟨-, -, last⟩ := ne_of_other named
    simp [last]

theorem header_eq (taken : Taken u c v) (inner : c.name ≠ Name.header) : v.header = u.header := by
  cases taken with
  | header named => exact absurd named inner
  | data => rfl
  | terminator => rfl
  | other => rfl

theorem name_ne_of_known (taken : Taken u c v) (known : u.header ≠ none) :
    c.name ≠ Name.header := by
  cases taken with
  | header named first => exact absurd first known
  | data named => simp [named, Name.header, Name.data]
  | terminator named => simp [named, Name.header, Name.terminator]
  | other named => exact (ne_of_other named).1

theorem allowed (taken : Taken u c v) (strict : u.options.strict = true) : ¬c.Mandatory := by
  cases taken with
  | header named => simp [StoredChunk.Mandatory, named]
  | data named => simp [StoredChunk.Mandatory, named]
  | terminator named => simp [StoredChunk.Mandatory, named]
  | other named allowed => exact allowed strict

end Taken

namespace Run

variable {u v w : Walk} {chunks : List StoredChunk}

theorem options_eq (run : Run u chunks w) : w.options = u.options := by
  induction run with
  | empty => rfl
  | next taken _ ih => exact ih.trans taken.options_eq

theorem compressed_eq (run : Run u chunks w) : w.compressed = u.compressed ++ dataOf chunks := by
  induction run with
  | empty => simp [dataOf]
  | next taken _ ih => rw [ih, taken.compressed_eq, dataOf_cons, List.append_assoc]

theorem terminated_iff (run : Run u chunks w) :
    w.terminated = true ↔ u.terminated = true ∨ ∃ c ∈ chunks, c.name = Name.terminator := by
  induction run with
  | empty => simp
  | next taken _ ih =>
    rw [ih, taken.terminated_iff]
    simp [or_assoc]

theorem allowed (run : Run u chunks w) (strict : u.options.strict = true) :
    ∀ c ∈ chunks, ¬c.Mandatory := by
  induction run with
  | empty => simp
  | next taken _ ih =>
    exact List.forall_mem_cons.mpr ⟨taken.allowed strict, ih (taken.options_eq ▸ strict)⟩

theorem header_eq (run : Run u chunks w) (inner : ∀ c ∈ chunks, c.name ≠ Name.header) :
    w.header = u.header := by
  induction run with
  | empty => rfl
  | next taken _ ih =>
    obtain ⟨first, others⟩ := List.forall_mem_cons.mp inner
    exact (ih others).trans (taken.header_eq first)

theorem names_ne_of_known (run : Run u chunks w) (known : u.header ≠ none) :
    ∀ c ∈ chunks, c.name ≠ Name.header := by
  induction run with
  | empty => simp
  | next taken _ ih =>
    have first := taken.name_ne_of_known known
    rw [← taken.header_eq first] at known
    exact List.forall_mem_cons.mpr ⟨first, ih known⟩

/-- A header that was found is in a chunk, with no other and no data before it. -/
theorem headed (run : Run u chunks w) (fresh : u.header = none) {header : Header}
    (found : w.header = some header) :
    (∃ before c after, chunks = before ++ c :: after ∧ c.name = Name.header ∧
      c.payload = header.payload ∧ (∀ d ∈ before, d.name ≠ Name.header ∧ d.name ≠ Name.data) ∧
      ∀ d ∈ after, d.name ≠ Name.header) ∧ header.Admitted u.options := by
  induction run with
  | empty =>
    rw [fresh] at found
    cases found
  | next taken run ih =>
    rename_i u v w c chunks
    by_cases named : c.name = Name.header
    · cases taken with
      | header _ _ payload admitted =>
        have others := run.names_ne_of_known (by simp)
        have same := run.header_eq others
        rw [found] at same
        cases same
        exact ⟨⟨[], c, chunks, rfl, named, payload, by simp, others⟩, admitted⟩
      | data other => exact absurd (named.symm.trans other) (by decide)
      | terminator other => exact absurd (named.symm.trans other) (by decide)
      | other others => exact absurd named (ne_of_other others).1
    · have data : c.name ≠ Name.data := by
        intro data
        cases taken with
        | header other => exact named other
        | data _ known => exact known fresh
        | terminator other => exact absurd (data.symm.trans other) (by decide)
        | other others => exact absurd data (ne_of_other others).2.1
      obtain ⟨⟨before, d, after, split, rest⟩, admitted⟩ :=
        ih ((taken.header_eq named).trans fresh) found
      refine ⟨⟨c :: before, d, after, ?_, rest.1, rest.2.1, ?_, rest.2.2.2⟩, ?_⟩
      · rw [split, List.cons_append]
      · exact List.forall_mem_cons.mpr ⟨⟨named, data⟩, rest.2.2.1⟩
      · rw [← taken.options_eq]
        exact admitted

theorem append {more : List StoredChunk} (first : Run u chunks v) (second : Run v more w) :
    Run u (chunks ++ more) w := by
  induction first with
  | empty => exact second
  | next taken _ ih => exact .next taken (ih second)

end Run

/-- Chunks other than the header can be taken, data among them only behind the header. -/
theorem exists_run_of_inner (u : Walk) (chunks : List StoredChunk)
    (inner : ∀ c ∈ chunks, c.name ≠ Name.header ∧ (c.name = Name.data → u.header ≠ none))
    (allowed : u.options.strict = true → ∀ c ∈ chunks, ¬c.Mandatory) : ∃ w, Run u chunks w := by
  induction chunks generalizing u with
  | nil => exact ⟨u, .empty u⟩
  | cons c chunks ih =>
    obtain ⟨⟨header, data⟩, others⟩ := List.forall_mem_cons.mp inner
    have first : ∃ v, Taken u c v := by
      by_cases named : c.name = Name.data
      · exact ⟨_, .data named (data named)⟩
      by_cases last : c.name = Name.terminator
      · exact ⟨_, .terminator last⟩
      refine ⟨_, .other ?_ fun strict => allowed strict c List.mem_cons_self⟩
      simp [header, named, last]
    obtain ⟨v, taken⟩ := first
    rw [← taken.header_eq header] at others
    obtain ⟨w, run⟩ := ih v others fun strict d hd =>
      allowed (taken.options_eq ▸ strict) d (List.mem_cons_of_mem c hd)
    exact ⟨w, .next taken run⟩

namespace WellFormed

variable {options : DecoderOptions} {chunks : List StoredChunk} {rest : List UInt8}
  {header : Header}

theorem exists_run (h : WellFormed options chunks rest header) :
    ∃ w, Run ⟨options, none, false, false, []⟩ chunks w ∧ w.header = some header := by
  obtain ⟨before, c, after, rfl, named, payload, plain, inner⟩ := h.headed
  obtain ⟨v, front⟩ := exists_run_of_inner ⟨options, none, false, false, []⟩ before
    (fun d hd => ⟨(plain d hd).1, fun data => absurd data (plain d hd).2⟩)
    fun strict d hd => h.allowed strict d (List.mem_append_left _ hd)
  have fresh := front.header_eq fun d hd => (plain d hd).1
  have admitted : header.Admitted v.options := by
    rw [front.options_eq]
    exact h.admitted
  have taken := Taken.header named fresh payload admitted
  obtain ⟨w, back⟩ := exists_run_of_inner { v with header := some header } after
    (fun d hd => ⟨inner d hd, fun _ => Option.some_ne_none header⟩) (by
      intro strict d hd
      rw [front.options_eq] at strict
      exact h.allowed strict d (List.mem_append_right _ (List.mem_cons_of_mem c hd)))
  exact ⟨w, front.append (.next taken back), back.header_eq inner⟩

theorem of_run {w : Walk} (run : Run ⟨options, none, false, false, []⟩ chunks w)
    (intact : options.confirmChecksums = true → ∀ c ∈ chunks, c.Intact)
    (ended : Ended chunks rest) (found : w.header = some header) (filled : w.compressed ≠ [])
    (terminated : options.strict = true → w.terminated = true) :
    WellFormed options chunks rest header := by
  obtain ⟨headed, admitted⟩ := run.headed rfl found
  refine ⟨intact, ended, fun strict => ?_, headed, admitted, ?_, fun strict => run.allowed strict⟩
  · have last := run.terminated_iff.mp (terminated strict)
    simpa using last
  · rw [run.compressed_eq, List.nil_append] at filled
    exact filled

end WellFormed

/-- A header, the data in one chunk, and the last chunk. -/
def plainChunks (header : Header) (data : List UInt8) (small : data.length < 2 ^ 32) :
    List StoredChunk :=
  [.sealed Name.header header.payload rfl (by rw [header.length_payload]; decide),
    .sealed Name.data data rfl small, .sealed Name.terminator [] rfl (by decide)]

theorem dataOf_plainChunks (header : Header) (data : List UInt8) (small : data.length < 2 ^ 32) :
    dataOf (plainChunks header data small) = data := by
  change [] ++ (data ++ []) = data
  rw [List.nil_append, List.append_nil]

theorem wellFormed_plainChunks {options : DecoderOptions} {header : Header}
    (admitted : header.Admitted options) {data : List UInt8} (small : data.length < 2 ^ 32)
    (filled : data ≠ []) (rest : List UInt8) :
    WellFormed options (plainChunks header data small) rest header where
  intact _ c hc := by
    simp only [plainChunks, List.mem_cons, List.not_mem_nil, or_false] at hc
    rcases hc with rfl | rfl | rfl <;> rfl
  ended := Or.inl ⟨(plainChunks header data small).take 2, _, rfl, rfl, by
    simp [plainChunks, StoredChunk.sealed, Name.header, Name.data, Name.terminator]⟩
  terminated _ := ⟨_, List.mem_of_getLast? rfl, rfl⟩
  headed := ⟨[], _, _, rfl, rfl, rfl, by simp, by
    simp [StoredChunk.sealed, Name.header, Name.data, Name.terminator]⟩
  admitted := admitted
  filled := by
    rw [dataOf_plainChunks]
    exact filled
  allowed _ c hc := by
    simp only [plainChunks, List.mem_cons, List.not_mem_nil, or_false] at hc
    rcases hc with rfl | rfl | rfl <;> simp [StoredChunk.Mandatory, StoredChunk.sealed]

/-! ### The reader -/

theorem readSignature_ok {r : Decoder} (h : r.stream.Sound) {rest : List UInt8}
    (known : r.stream.ahead = signature ++ rest) :
    readSignature r = .ok () { r with stream := r.stream.seek (r.stream.position + 8) } := by
  have hread := Stream.readBytes_eq h signature.length
  have size : min signature.length r.stream.ahead.length = 8 := by
    rw [known, List.length_append]
    exact Nat.min_eq_left (Nat.le_add_right _ _)
  rw [size, known, List.take_left] at hread
  rw [readSignature, bind_of_ok (Reading.onStream_of_ok hread)]
  rfl

theorem of_readSignature {r t : Decoder} (h : r.stream.Sound)
    (read : readSignature r = .ok () t) :
    ∃ rest, r.stream.ahead = signature ++ rest := by
  have hread := Stream.readBytes_eq h signature.length
  rw [readSignature, bind_of_ok (Reading.onStream_of_ok hread)] at read
  by_cases differs : r.stream.ahead.take signature.length ≠
      signature.take (r.stream.ahead.take signature.length).length
  · rw [if_pos differs] at read
    cases read
  rw [if_neg differs] at read
  dsimp only at read
  by_cases short : (r.stream.ahead.take signature.length).length ≠ signature.length
  · rw [if_pos short] at read
    cases read
  rw [Decidable.not_not] at differs short
  rw [short, List.take_length] at differs
  refine ⟨r.stream.ahead.drop signature.length, ?_⟩
  rw [← differs, short, List.take_append_drop]

/-- What the reader does when its walk is over. -/
def concludeWalk : DecoderM Unit := do
  let w ← Reading.soFar
  if w.header.isNone then throw .missingHeader
  if w.compressed = [] then throw .noImageData
  if ¬w.terminated then
    if w.options.strict then throw .missingTerminator
    Reading.note .warn .pngReader "No IEND chunk, the png may be truncated"
  Reading.modifyFound fun w => { w with complete := true }

theorem decodeHeaders_eq {r : Decoder} (fresh : r.found.complete = false) :
    decodeHeaders r = (do
      readSignature
      walk ((← get).stream.remaining + 1)
      concludeWalk : DecoderM Unit) r := by
  rw [decodeHeaders, bind_of_ok (Reading.soFar_eq_ok r), fresh]
  rfl

/-- What the reader misses when its walk is over, in the order in which it asks. -/
def Walk.lacking (w : Walk) : Option Error :=
  if w.header = none then some .missingHeader
  else if w.compressed = [] then some .noImageData
  else if w.options.strict = true ∧ w.terminated = false then some .missingTerminator
  else none

theorem Walk.lacking_eq_none_iff {w : Walk} :
    w.lacking = none ↔ (∃ header, w.header = some header) ∧ w.compressed ≠ [] ∧
      (w.options.strict = true → w.terminated = true) := by
  rw [Walk.lacking, ← Option.ne_none_iff_exists']
  by_cases headless : w.header = none
  · simp [headless]
  by_cases empty : w.compressed = []
  · simp [headless, empty]
  · simp [headless, empty]

theorem concludeWalk_eq (r : Decoder) : ∃ notes, concludeWalk r =
    match r.found.lacking with
    | some e => .error e r
    | none => .ok () ⟨r.stream, { r.found with complete := true }, notes⟩ := by
  rw [concludeWalk, bind_of_ok (Reading.soFar_eq_ok r), Walk.lacking]
  by_cases missing : r.found.header = none
  · rw [if_pos missing, missing]
    exact ⟨r.notes, rfl⟩
  rw [if_neg missing, if_neg (by simpa using missing)]
  by_cases empty : r.found.compressed = []
  · rw [if_pos empty, if_pos empty]
    exact ⟨r.notes, rfl⟩
  rw [if_neg empty, if_neg empty]
  cases r.found.terminated with
  | true =>
    rw [if_neg (not_not_intro rfl), if_neg fun h => absurd h.2 (by decide)]
    exact ⟨r.notes, rfl⟩
  | false =>
    cases r.found.options.strict with
    | true => exact ⟨r.notes, rfl⟩
    | false => exact ⟨_, rfl⟩

theorem concludeWalk_ok {r : Decoder} {header : Header} (found : r.found.header = some header)
    (filled : r.found.compressed ≠ [])
    (terminated : r.found.options.strict = true → r.found.terminated = true) :
    ∃ notes, concludeWalk r = .ok () ⟨r.stream, { r.found with complete := true }, notes⟩ := by
  obtain ⟨notes, concluded⟩ := concludeWalk_eq r
  rw [Walk.lacking_eq_none_iff.mpr ⟨⟨header, found⟩, filled, terminated⟩] at concluded
  exact ⟨notes, concluded⟩

theorem of_concludeWalk {r after : Decoder} (concluded : concludeWalk r = .ok () after) :
    r.found.lacking = none ∧ after.stream = r.stream ∧
      after.found = { r.found with complete := true } := by
  obtain ⟨notes, same⟩ := concludeWalk_eq r
  rw [same] at concluded
  cases lacks : r.found.lacking with
  | some e =>
    rw [lacks] at concluded
    cases concluded
  | none =>
    rw [lacks] at concluded
    cases concluded
    exact ⟨rfl, rfl, rfl⟩

/-- A reader that has read the signature and nothing else. -/
def begun (s : Stream) (options : DecoderOptions) : Decoder :=
  ⟨s.seek (s.position + 8), ⟨options, none, false, false, []⟩, []⟩

theorem decodeHeaders_start_eq {s : Stream} (h : s.Sound) (options : DecoderOptions)
    {later : List UInt8} (known : s.ahead = signature ++ later) :
    (begun s options).stream.ahead = later ∧ decodeHeaders (Decoder.start s options) =
      (walk (later.length + 1) >>= fun _ => concludeWalk) (begun s options) := by
  have behind : (begun s options).stream.ahead = later := Stream.ahead_seek_append known
  have room : (begun s options).stream.remaining = later.length := by
    rw [← behind]
    exact (Stream.length_ahead (h.seek _)).symm
  have hsignature := readSignature_ok (r := Decoder.start s options) h known
  refine ⟨behind, ?_⟩
  rw [decodeHeaders_eq rfl, bind_of_ok hsignature, ← room]
  exact bind_of_ok (get_eq_ok _)

/-- A file of the grammar is read, and its header and data are found. -/
theorem decodeHeaders_wellFormed {s : Stream} (h : s.Sound) {options : DecoderOptions}
    {chunks : List StoredChunk} {rest : List UInt8} {header : Header}
    (known : s.ahead = signature ++ (chunks.flatMap StoredChunk.bytes ++ rest))
    (wellFormed : WellFormed options chunks rest header) :
    ∃ after, decodeHeaders (Decoder.start s options) = .ok () after ∧
      after.found.options = options ∧ after.found.header = some header ∧
      after.found.compressed = dataOf chunks := by
  obtain ⟨w, run, found⟩ := wellFormed.exists_run
  obtain ⟨behind, steps⟩ := decodeHeaders_start_eq h options known
  have enough := Nat.lt_succ_of_le (Nat.le_of_eq (congrArg List.length behind))
  obtain ⟨walkNotes, hwalk⟩ := walk_of_run (r := begun s options) (h.seek _) enough behind
    wellFormed.intact wellFormed.ended run
  have compressed := run.compressed_eq
  have filled : w.compressed ≠ [] := by
    rw [compressed]
    exact wellFormed.filled
  have terminated : w.options.strict = true → w.terminated = true := by
    intro strict
    rw [run.options_eq] at strict
    exact run.terminated_iff.mpr (Or.inr (wellFormed.terminated strict))
  obtain ⟨notes, hconclude⟩ := concludeWalk_ok (r := ⟨_, w, walkNotes⟩) found filled terminated
  exact ⟨_, steps.trans ((bind_of_ok hwalk).trans hconclude), run.options_eq, found, compressed⟩

/-- What is read is a file of the grammar. -/
theorem wellFormed_of_decodeHeaders {s : Stream} (h : s.Sound) {options : DecoderOptions}
    {after : Decoder} (read : decodeHeaders (Decoder.start s options) = .ok () after) :
    ∃ chunks rest header, s.ahead = signature ++ (chunks.flatMap StoredChunk.bytes ++ rest) ∧
      WellFormed options chunks rest header := by
  have opened := read
  rw [decodeHeaders_eq rfl] at opened
  obtain ⟨_, r, hsignature, -⟩ := bind_eq_ok_iff.mp opened
  obtain ⟨later, known⟩ := of_readSignature (r := Decoder.start s options) h hsignature
  obtain ⟨behind, steps⟩ := decodeHeaders_start_eq h options known
  have enough := Nat.lt_succ_of_le (Nat.le_of_eq (congrArg List.length behind))
  rw [steps] at read
  obtain ⟨_, t, hwalk, concluded⟩ := bind_eq_ok_iff.mp read
  obtain ⟨⟨header, found⟩, filled, terminated⟩ :=
    Walk.lacking_eq_none_iff.mp (of_concludeWalk concluded).1
  obtain ⟨chunks, rest, split, intact, ended, run⟩ :=
    run_of_walk (r := begun s options) (h.seek _) enough hwalk
  rw [run.options_eq] at terminated
  refine ⟨chunks, rest, header, ?_, .of_run run intact ended found filled terminated⟩
  rw [← split, behind]
  exact known

/--
The first look at a stream succeeds exactly when a file of the grammar is ahead, and then
reports the header and the data of the chunks.
-/
theorem decodeHeaders_accepts_grammar {s : Stream} (h : s.Sound) (options : DecoderOptions) :
    ((∃ after, decodeHeaders (Decoder.start s options) = .ok () after) ↔
      ∃ chunks rest header, s.ahead = signature ++ (chunks.flatMap StoredChunk.bytes ++ rest) ∧
        WellFormed options chunks rest header) ∧
    ∀ after, decodeHeaders (Decoder.start s options) = .ok () after →
      ∀ chunks rest header, s.ahead = signature ++ (chunks.flatMap StoredChunk.bytes ++ rest) →
        WellFormed options chunks rest header →
        after.found.header = some header ∧ after.found.compressed = dataOf chunks := by
  refine ⟨⟨?_, ?_⟩, ?_⟩
  · rintro ⟨after, read⟩
    exact wellFormed_of_decodeHeaders h read
  · rintro ⟨chunks, rest, header, known, wellFormed⟩
    obtain ⟨after, read, -⟩ := decodeHeaders_wellFormed h known wellFormed
    exact ⟨after, read⟩
  · intro after read chunks rest header known wellFormed
    obtain ⟨found, hfound, -, header, compressed⟩ := decodeHeaders_wellFormed h known wellFormed
    rw [hfound] at read
    cases read
    exact ⟨header, compressed⟩

/-- A view of a one-pixel file between other bytes. -/
theorem decodeHeaders_accepts_pixel :
    let chunks := plainChunks ⟨1, 1, 8, .rgb⟩ [7] (by decide)
    let file := signature ++ (chunks.flatMap StoredChunk.bytes ++ [3])
    let s := (Stream.ofBytes ([1, 2] ++ file)).seek 2
    s.Sound ∧ ∃ after, decodeHeaders (Decoder.start s .strictest) = .ok () after ∧
      after.found.header = some ⟨1, 1, 8, .rgb⟩ ∧ after.found.compressed = [7] := by
  intro chunks file s
  have counted : ([1, 2] ++ file).length < Count.bound := by
    simp [file, chunks, plainChunks, StoredChunk.length_bytes, StoredChunk.sealed,
      Header.length_payload, signature, Count.bound]
  have sound : s.Sound := (Stream.sound_ofBytes counted).seek 2
  have wellFormed : WellFormed .strictest chunks [3] ⟨1, 1, 8, .rgb⟩ :=
    wellFormed_plainChunks ⟨by decide, by decide, by decide, by decide, by decide, rfl⟩ _
      (by decide) _
  obtain ⟨accepts, reports⟩ := decodeHeaders_accepts_grammar sound .strictest
  obtain ⟨after, read⟩ := accepts.mpr ⟨chunks, [3], _, rfl, wellFormed⟩
  obtain ⟨header, compressed⟩ := reports after read chunks [3] _ rfl wellFormed
  exact ⟨sound, after, read, header, compressed.trans (dataOf_plainChunks _ _ _)⟩

end PackageAssets.Png
