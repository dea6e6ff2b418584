import PackageAssets.Proofs.Png.HeaderChunk

/-!
# Walking over chunks

`Taken` says what a chunk adds to what was found before it, and `Run` says so
for a list of chunks. A walk over bytes that hold the chunks does what the run
does, and a walk that succeeds has such chunks under it.
-/
namespace PackageAssets.Png

/-- A chunk of none of the four known kinds that the image cannot be shown without. -/
def StoredChunk.Mandatory (c : StoredChunk) : Prop :=
  c.name ∉ [Name.header, Name.palette, Name.data, Name.terminator] ∧
    (c.name.headD 0).toNat.testBit 5 = false

/-- What one chunk makes of what was found before it. -/
inductive Taken : Walk → StoredChunk → Walk → Prop where
  | header {w : Walk} {c : StoredChunk} {header : Header} (named : c.name = Name.header)
      (first : w.header = none) (payload : c.payload = header.payload)
      (admitted : header.Admitted w.options) : Taken w c { w with header := some header }
  | data {w : Walk} {c : StoredChunk} (named : c.name = Name.data) (known : w.header ≠ none) :
      Taken w c { w with compressed := w.compressed ++ c.payload }
  | terminator {w : Walk} {c : StoredChunk} (named : c.name = Name.terminator) :
      Taken w c { w with terminated := true }
  | other {w : Walk} {c : StoredChunk}
      (named : c.name ∉ [Name.header, Name.data, Name.terminator])
      (allowed : w.options.strict = true → ¬c.Mandatory) : Taken w c w

/-- What a list of chunks makes of what was found before them. -/
inductive Run : Walk → List StoredChunk → Walk → Prop where
  | empty (w : Walk) : Run w [] w
  | next {u v w : Walk} {c : StoredChunk} {chunks : List StoredChunk} (taken : Taken u c v)
      (run : Run v chunks w) : Run u (c :: chunks) w

theorem ne_of_other {name : List UInt8}
    (named : name ∉ [Name.header, Name.data, Name.terminator]) :
    name ≠ Name.header ∧ name ≠ Name.data ∧ name ≠ Name.terminator := by
  simpa using named

theorem ofName_other {name : List UInt8}
    (named : name ∉ [Name.header, Name.data, Name.terminator]) :
    ChunkKind.ofName name = if name = Name.palette then .palette else .unknown := by
  obtain ⟨header, data, last⟩ := ne_of_other named
  simp only [ChunkKind.ofName, header, data, last, if_false]

theorem isCritical_iff (name : List UInt8) :
    isCritical name = true ↔ (name.headD 0).toNat.testBit 5 = false := by
  rw [isCritical, decide_eq_true_eq, Nat.testBit_eq_decide_div_mod_eq, decide_eq_false_iff_not]
  omega

theorem mandatory_iff {c : StoredChunk}
    (named : c.name ∉ [Name.header, Name.data, Name.terminator]) :
    c.Mandatory ↔ ChunkKind.ofName c.name = .unknown ∧ isCritical c.name = true := by
  rw [StoredChunk.Mandatory, ← isCritical_iff, ofName_other named]
  simp only [List.mem_cons, List.not_mem_nil, or_false, not_or] at named ⊢
  by_cases palette : c.name = Name.palette
  · simp [palette]
  · simp [palette, named]

/-! ### The three things done with a chunk -/

/-- A chunk as the reader holds it, of the chunk as it is stored. -/
structure Views (chunk : Chunk) (c : StoredChunk) : Prop where
  name : chunk.name = c.name
  length : chunk.length = c.payload.length
  sound : chunk.data.Sound
  payload : chunk.data.ahead = c.payload

theorem viewed_views {r : Decoder} (h : r.stream.Sound) {c : StoredChunk} {rest : List UInt8}
    (known : r.stream.ahead = c.bytes ++ rest) : Views (viewed r.stream c) c := by
  obtain ⟨-, sound, payload⟩ := readChunk_eq h known
  exact ⟨rfl, rfl, sound, payload⟩

theorem takeHeader_ok {chunk : Chunk} {c : StoredChunk} (views : Views chunk c) {r : Decoder}
    {header : Header} (first : r.found.header = none) (payload : c.payload = header.payload)
    (admitted : header.Admitted r.found.options) :
    ∃ notes, takeHeader chunk r =
      .ok () ⟨r.stream, { r.found with header := some header }, notes⟩ := by
  have size : ¬chunk.length ≠ headerSize := by
    rw [views.length, payload, header.length_payload]
    decide
  have parsed := parseHeader_payload views.sound (views.payload.trans payload) admitted
  rw [takeHeader, bind_of_ok (Reading.soFar_eq_ok r), first]
  dsimp only [Option.isSome_none]
  rw [if_neg Bool.false_ne_true, if_neg size, parsed]
  exact ⟨_, rfl⟩

theorem of_takeHeader {chunk : Chunk} {c : StoredChunk} (views : Views chunk c) {r t : Decoder}
    (taken : takeHeader chunk r = .ok () t) :
    ∃ header notes, r.found.header = none ∧ c.payload = header.payload ∧
      header.Admitted r.found.options ∧
      t = ⟨r.stream, { r.found with header := some header }, notes⟩ := by
  rw [takeHeader, bind_of_ok (Reading.soFar_eq_ok r)] at taken
  dsimp only at taken
  by_cases known : r.found.header.isSome = true
  · rw [if_pos known] at taken
    cases taken
  rw [if_neg known] at taken
  by_cases size : chunk.length ≠ headerSize
  · rw [if_pos size] at taken
    cases taken
  rw [if_neg size, views.length, Decidable.not_not] at *
  rw [← views.payload] at size
  cases parsed : parseHeader r.found.options chunk.data with
  | error e =>
    rw [parsed] at taken
    cases taken
  | ok pair =>
    obtain ⟨header, after⟩ := pair
    rw [parsed] at taken
    obtain ⟨payload, admitted⟩ := of_parseHeader_eq_ok views.sound size parsed
    rw [Option.not_isSome_iff_eq_none] at known
    cases taken
    exact ⟨header, _, known, views.payload.symm.trans payload, admitted, rfl⟩

theorem takeData_eq {chunk : Chunk} {c : StoredChunk} (views : Views chunk c) (r : Decoder) :
    takeData chunk r =
      if r.found.header.isNone then .error (.chunkOrder "IDAT chunk before IHDR") r
      else .ok () { r with
        found := { r.found with compressed := r.found.compressed ++ c.payload } } := by
  rw [takeData, bind_of_ok (Reading.soFar_eq_ok r), Stream.readRemaining_eq views.sound,
    views.payload]
  by_cases known : r.found.header.isNone = true
  · rw [if_pos known, if_pos known]
    rfl
  · rw [if_neg known, if_neg known]
    rfl

theorem skipChunk_ok (chunk : Chunk) (r : Decoder)
    (allowed : ¬(ChunkKind.ofName chunk.name = .unknown ∧ isCritical chunk.name = true ∧
      r.found.options.strict = true)) :
    ∃ notes, skipChunk chunk r = .ok () { r with notes } := by
  rw [skipChunk, bind_of_ok (Reading.soFar_eq_ok r)]
  dsimp only
  rw [if_neg allowed]
  exact ⟨_, rfl⟩

theorem of_skipChunk {chunk : Chunk} {r t : Decoder} (skipped : skipChunk chunk r = .ok () t) :
    ¬(ChunkKind.ofName chunk.name = .unknown ∧ isCritical chunk.name = true ∧
      r.found.options.strict = true) := by
  intro forbidden
  rw [skipChunk, bind_of_ok (Reading.soFar_eq_ok r)] at skipped
  dsimp only at skipped
  rw [if_pos forbidden] at skipped
  cases skipped

/-! ### One round -/

/-- What a walk does with a chunk it has read. -/
def continueWalk (rounds : Nat) (chunk : Chunk) : DecoderM Unit :=
  match ChunkKind.ofName chunk.name with
  | .header => do
    takeHeader chunk
    walk rounds
  | .data => do
    takeData chunk
    walk rounds
  | .terminator => Reading.modifyFound fun w => { w with terminated := true }
  | .palette | .unknown => do
    skipChunk chunk
    walk rounds

theorem walk_at_end {rounds : Nat} {r : Decoder} (atEnd : r.stream.atEnd = true) :
    walk (rounds + 1) r = .ok () r := by
  rw [walk, bind_of_ok (get_eq_ok r), if_pos atEnd]
  rfl

theorem walk_more {rounds : Nat} {r : Decoder} (more : ¬r.stream.atEnd = true) :
    walk (rounds + 1) r = (readChunk >>= continueWalk rounds) r := by
  rw [walk, bind_of_ok (get_eq_ok r), if_neg more]
  rfl

/-- Where a walk goes from what it found in a chunk: on, but for the last chunk. -/
def goOn (rounds : Nat) (c : StoredChunk) (r : Decoder) : EStateM.Result Error Decoder Unit :=
  if c.name = Name.terminator then .ok () r else walk rounds r

theorem continueWalk_taken (rounds : Nat) {chunk : Chunk} {c : StoredChunk}
    (views : Views chunk c) {r : Decoder} {w : Walk} (taken : Taken r.found c w) :
    ∃ notes, continueWalk rounds chunk r = goOn rounds c ⟨r.stream, w, notes⟩ := by
  unfold continueWalk goOn
  cases taken with
  | header named first payload admitted =>
    obtain ⟨notes, htake⟩ := takeHeader_ok views first payload admitted
    refine ⟨notes, ?_⟩
    rw [views.name, named, if_neg (by decide)]
    exact bind_of_ok htake
  | data named known =>
    have htake := takeData_eq views r
    rw [if_neg (by simpa using known)] at htake
    refine ⟨r.notes, ?_⟩
    rw [views.name, named, if_neg (by decide)]
    exact bind_of_ok htake
  | terminator named =>
    refine ⟨r.notes, ?_⟩
    rw [views.name, named, if_pos rfl]
    rfl
  | other named allowed =>
    rw [mandatory_iff named, ← views.name] at allowed
    obtain ⟨notes, hskip⟩ := skipChunk_ok chunk r
      fun h => allowed h.2.2 ⟨h.1, h.2.1⟩
    obtain ⟨-, -, last⟩ := ne_of_other named
    refine ⟨notes, ?_⟩
    rw [views.name, ofName_other named, if_neg last]
    by_cases palette : c.name = Name.palette
    · rw [if_pos palette]
      exact bind_of_ok hskip
    · rw [if_neg palette]
      exact bind_of_ok hskip

theorem of_continueWalk {rounds : Nat} {chunk : Chunk} {c : StoredChunk}
    (views : Views chunk c) {r after : Decoder}
    (walked : continueWalk rounds chunk r = .ok () after) :
    ∃ w notes, Taken r.found c w ∧ goOn rounds c ⟨r.stream, w, notes⟩ = .ok () after := by
  unfold continueWalk at walked
  unfold goOn
  rw [views.name] at walked
  by_cases header : c.name = Name.header
  · rw [header] at walked
    obtain ⟨_, t, taken, walked⟩ := bind_eq_ok_iff.mp walked
    obtain ⟨h, notes, first, payload, admitted, rfl⟩ := of_takeHeader views taken
    refine ⟨_, notes, .header header first payload admitted, ?_⟩
    rw [header, if_neg (by decide)]
    exact walked
  by_cases data : c.name = Name.data
  · rw [data] at walked
    obtain ⟨_, t, taken, walked⟩ := bind_eq_ok_iff.mp walked
    rw [takeData_eq views] at taken
    by_cases known : r.found.header.isNone = true
    · rw [if_pos known] at taken
      cases taken
    rw [if_neg known] at taken
    cases taken
    refine ⟨_, r.notes, .data data (by simpa using known), ?_⟩
    rw [data, if_neg (by decide)]
    exact walked
  by_cases last : c.name = Name.terminator
  · rw [last] at walked
    cases walked
    exact ⟨_, r.notes, .terminator last, if_pos last⟩
  have named : c.name ∉ [Name.header, Name.data, Name.terminator] := by
    simp [header, data, last]
  have skipped : (skipChunk chunk >>= fun _ => walk rounds) r = .ok () after := by
    rw [ofName_other named] at walked
    by_cases palette : c.name = Name.palette
    · rwa [if_pos palette] at walked
    · rwa [if_neg palette] at walked
  obtain ⟨_, t, skipped, walked⟩ := bind_eq_ok_iff.mp skipped
  have allowed := of_skipChunk skipped
  obtain ⟨notes, hskip⟩ := skipChunk_ok chunk r allowed
  rw [hskip] at skipped
  cases skipped
  refine ⟨r.found, notes, .other named ?_, (if_neg last).trans walked⟩
  intro strict mandatory
  rw [mandatory_iff named, ← views.name] at mandatory
  exact allowed ⟨mandatory.1, mandatory.2, strict⟩

/-! ### All rounds -/

/-- The chunks are all there is up to the last chunk, or up to the end when none is the last. -/
def Ended (chunks : List StoredChunk) (rest : List UInt8) : Prop :=
  (∃ front last, chunks = front ++ [last] ∧ last.name = Name.terminator ∧
    ∀ c ∈ front, c.name ≠ Name.terminator) ∨
  (rest = [] ∧ ∀ c ∈ chunks, c.name ≠ Name.terminator)

theorem ended_nil_iff {rest : List UInt8} : Ended [] rest ↔ rest = [] := by
  simp [Ended]

theorem ended_last_iff {c : StoredChunk} (last : c.name = Name.terminator)
    {chunks : List StoredChunk} {rest : List UInt8} :
    Ended (c :: chunks) rest ↔ chunks = [] := by
  constructor
  · rintro (⟨front, back, split, -, others⟩ | ⟨-, others⟩)
    · cases front with
      | nil =>
        cases split
        rfl
      | cons d front =>
        cases split
        exact absurd last (others c List.mem_cons_self)
    · exact absurd last (others c List.mem_cons_self)
  · rintro rfl
    exact Or.inl ⟨[], c, rfl, last, fun _ h => absurd h List.not_mem_nil⟩

theorem ended_cons_iff {c : StoredChunk} (inner : c.name ≠ Name.terminator)
    {chunks : List StoredChunk} {rest : List UInt8} :
    Ended (c :: chunks) rest ↔ Ended chunks rest := by
  constructor
  · rintro (⟨front, back, split, last, others⟩ | ⟨nothing, others⟩)
    · cases front with
      | nil =>
        cases split
        exact absurd last inner
      | cons d front =>
        cases split
        exact Or.inl ⟨front, back, rfl, last, fun x h => others x (List.mem_cons_of_mem _ h)⟩
    · exact Or.inr ⟨nothing, fun x h => others x (List.mem_cons_of_mem _ h)⟩
  · rintro (⟨front, back, rfl, last, others⟩ | ⟨nothing, others⟩)
    · exact Or.inl ⟨c :: front, back, rfl, last, List.forall_mem_cons.mpr ⟨inner, others⟩⟩
    · exact Or.inr ⟨nothing, List.forall_mem_cons.mpr ⟨inner, others⟩⟩

theorem Taken.options_eq {u v : Walk} {c : StoredChunk} (taken : Taken u c v) :
    v.options = u.options := by
  cases taken <;> rfl

theorem atEnd_iff {s : Stream} (h : s.Sound) : s.atEnd = true ↔ s.ahead = [] := by
  rw [Stream.atEnd, decide_eq_true_eq, ← Stream.length_ahead h, List.length_eq_zero_iff]

/-- A chunk takes up room, so a walk comes closer to the end with each. -/
theorem length_past_lt {s : Stream} {c : StoredChunk} {rest : List UInt8}
    (known : s.ahead = c.bytes ++ rest) : (past s c).ahead.length < s.ahead.length := by
  rw [ahead_past known, known, List.length_append, c.length_bytes]
  omega

theorem not_atEnd {s : Stream} (h : s.Sound) {c : StoredChunk} {rest : List UInt8}
    (known : s.ahead = c.bytes ++ rest) : ¬s.atEnd = true := by
  rw [atEnd_iff h]
  intro nothing
  have fewer := length_past_lt known
  rw [nothing] at fewer
  exact absurd fewer (Nat.not_lt_zero _)

/-- One round takes the chunk at the position and goes on behind it. -/
theorem walk_taken {rounds : Nat} {r : Decoder} (h : r.stream.Sound) {c : StoredChunk}
    {rest : List UInt8} (known : r.stream.ahead = c.bytes ++ rest)
    (intact : r.found.options.confirmChecksums = true → c.Intact) {w : Walk}
    (taken : Taken r.found c w) :
    ∃ notes, walk (rounds + 1) r = goOn rounds c ⟨past r.stream c, w, notes⟩ := by
  have hread := readChunk_intact h known intact
  obtain ⟨notes, hstep⟩ := continueWalk_taken rounds (viewed_views h known)
    (r := ⟨past r.stream c, r.found, r.notes ++ [chunkNote (viewed r.stream c)]⟩) taken
  refine ⟨notes, ?_⟩
  rw [walk_more (not_atEnd h known), bind_of_ok hread, hstep]

/-- A round that does not fail takes the chunk at the position. -/
theorem taken_of_walk_append {rounds : Nat} {r after : Decoder} (h : r.stream.Sound)
    {c : StoredChunk} {rest : List UInt8} (known : r.stream.ahead = c.bytes ++ rest)
    (walked : walk (rounds + 1) r = .ok () after) :
    (r.found.options.confirmChecksums = true → c.Intact) ∧
      ∃ w notes, Taken r.found c w ∧ goOn rounds c ⟨past r.stream c, w, notes⟩ = .ok () after := by
  rw [walk_more (not_atEnd h known)] at walked
  obtain ⟨chunk, t, hread, walked⟩ := bind_eq_ok_iff.mp walked
  have intact : r.found.options.confirmChecksums = true → c.Intact := by
    intro confirm
    apply Classical.byContradiction
    intro corrupt
    rw [readChunk_corrupt h known confirm corrupt] at hread
    cases hread
  rw [readChunk_intact h known intact] at hread
  cases hread
  exact ⟨intact, of_continueWalk (viewed_views h known) walked⟩

/-- A round that does not fail and does not stand at the end takes a chunk. -/
theorem taken_of_walk {rounds : Nat} {r after : Decoder} (h : r.stream.Sound)
    (more : ¬r.stream.atEnd = true) (walked : walk (rounds + 1) r = .ok () after) :
    ∃ c rest w notes, r.stream.ahead = StoredChunk.bytes c ++ rest ∧
      (r.found.options.confirmChecksums = true → c.Intact) ∧ Taken r.found c w ∧
      goOn rounds c ⟨past r.stream c, w, notes⟩ = .ok () after := by
  rcases StoredChunk.starts_or_cut r.stream.ahead with ⟨c, rest, known⟩ | cut
  · obtain ⟨intact, w, notes, taken, gone⟩ := taken_of_walk_append h known walked
    exact ⟨c, rest, w, notes, known, intact, taken, gone⟩
  · obtain ⟨expected, found, u, hcut⟩ := readChunk_cut h cut
    rw [walk_more more, bind_of_error hcut] at walked
    cases walked

/-! ### The chunks in front -/

/-- A walk comes to what is behind the chunks in front, with what their run finds. -/
theorem walk_front {rounds : Nat} {r : Decoder} (h : r.stream.Sound)
    (enough : r.stream.ahead.length < rounds) {front : List StoredChunk} {rest : List UInt8}
    (known : r.stream.ahead = front.flatMap StoredChunk.bytes ++ rest)
    (intact : r.found.options.confirmChecksums = true → ∀ c ∈ front, c.Intact)
    (inner : ∀ c ∈ front, c.name ≠ Name.terminator) {w : Walk} (run : Run r.found front w) :
    ∃ left position notes, rest.length < left ∧ (r.stream.seek position).ahead = rest ∧
      walk rounds r = walk left ⟨r.stream.seek position, w, notes⟩ := by
  induction front generalizing rounds r with
  | nil =>
    cases run
    have here : r.stream.ahead = rest := known
    exact ⟨rounds, r.stream.position, r.notes, here ▸ enough, here, rfl⟩
  | cons c front ih =>
    obtain ⟨rounds, rfl⟩ := Nat.exists_eq_add_one_of_ne_zero (Nat.ne_zero_of_lt enough)
    rw [List.flatMap_cons, List.append_assoc] at known
    have fewer := length_past_lt known
    obtain ⟨first, others⟩ := List.forall_mem_cons.mp inner
    cases run with
    | next taken run =>
      rename_i v
      obtain ⟨notes, hstep⟩ := walk_taken h known
        (fun confirm => intact confirm c List.mem_cons_self) taken
      have sooner : (past r.stream c).ahead.length < rounds := by omega
      have later : v.options.confirmChecksums = true → ∀ d ∈ front, d.Intact := by
        intro confirm d member
        rw [taken.options_eq] at confirm
        exact intact confirm d (List.mem_cons_of_mem c member)
      obtain ⟨left, position, notes, room, ahead, hrest⟩ :=
        ih (r := ⟨past r.stream c, v, notes⟩) (h.seek _) sooner (ahead_past known) later others run
      refine ⟨left, position, notes, room, ahead, ?_⟩
      rw [hstep, goOn, if_neg first]
      exact hrest

/-- Where a walk succeeds, the chunks in front can be taken. -/
theorem run_front_of_walk {rounds : Nat} {r after : Decoder} (h : r.stream.Sound)
    (enough : r.stream.ahead.length < rounds) {front : List StoredChunk} {rest : List UInt8}
    (known : r.stream.ahead = front.flatMap StoredChunk.bytes ++ rest)
    (inner : ∀ c ∈ front, c.name ≠ Name.terminator) (walked : walk rounds r = .ok () after) :
    (r.found.options.confirmChecksums = true → ∀ c ∈ front, c.Intact) ∧
      ∃ w, Run r.found front w := by
  induction front generalizing rounds r with
  | nil => exact ⟨fun _ c member => absurd member List.not_mem_nil, r.found, .empty r.found⟩
  | cons c front ih =>
    obtain ⟨rounds, rfl⟩ := Nat.exists_eq_add_one_of_ne_zero (Nat.ne_zero_of_lt enough)
    rw [List.flatMap_cons, List.append_assoc] at known
    have fewer := length_past_lt known
    have sooner : (past r.stream c).ahead.length < rounds := by omega
    obtain ⟨first, others⟩ := List.forall_mem_cons.mp inner
    obtain ⟨intact, v, notes, taken, gone⟩ := taken_of_walk_append h known walked
    rw [goOn, if_neg first] at gone
    obtain ⟨later, w, run⟩ :=
      ih (r := ⟨past r.stream c, v, notes⟩) (h.seek _) sooner (ahead_past known) others gone
    refine ⟨fun confirm => ?_, w, .next taken run⟩
    refine List.forall_mem_cons.mpr ⟨intact confirm, later ?_⟩
    exact (congrArg DecoderOptions.confirmChecksums taken.options_eq).trans confirm

/-! ### Walks to the end -/

/-- Over bytes that hold chunks up to their end, a walk finds what the run does, and stops there. -/
theorem walk_of_run {rounds : Nat} {r : Decoder} (h : r.stream.Sound)
    (enough : r.stream.ahead.length < rounds) {chunks : List StoredChunk} {rest : List UInt8}
    (known : r.stream.ahead = chunks.flatMap StoredChunk.bytes ++ rest)
    (intact : r.found.options.confirmChecksums = true → ∀ c ∈ chunks, c.Intact)
    (ended : Ended chunks rest) {w : Walk} (run : Run r.found chunks w) :
    ∃ notes, walk rounds r = .ok () ⟨r.stream.seek
      (r.stream.position + (chunks.flatMap StoredChunk.bytes).length), w, notes⟩ := by
  induction chunks generalizing rounds r with
  | nil =>
    obtain ⟨rounds, rfl⟩ := Nat.exists_eq_add_one_of_ne_zero (Nat.ne_zero_of_lt enough)
    have atEnd : r.stream.atEnd = true := by
      rw [atEnd_iff h, known, ended_nil_iff.mp ended]
      rfl
    cases run
    exact ⟨r.notes, walk_at_end atEnd⟩
  | cons c chunks ih =>
    obtain ⟨rounds, rfl⟩ := Nat.exists_eq_add_one_of_ne_zero (Nat.ne_zero_of_lt enough)
    rw [List.flatMap_cons, List.append_assoc] at known
    have fewer := length_past_lt known
    cases run with
    | next taken run =>
      rename_i v
      obtain ⟨notes, hstep⟩ := walk_taken h known
        (fun confirm => intact confirm c List.mem_cons_self) taken
      rw [hstep, goOn, List.flatMap_cons, List.length_append, ← Nat.add_assoc]
      by_cases last : c.name = Name.terminator
      · rw [ended_last_iff last] at ended
        subst ended
        cases run
        rw [if_pos last]
        exact ⟨notes, rfl⟩
      · rw [ended_cons_iff last] at ended
        rw [if_neg last]
        refine ih (r := ⟨past r.stream c, v, notes⟩) (h.seek _) ?_ (ahead_past known) ?_ ended run
        · change (past r.stream c).ahead.length < rounds
          omega
        · intro confirm d hd
          rw [taken.options_eq] at confirm
          exact intact confirm d (List.mem_cons_of_mem c hd)

/-- Under a walk that succeeds there are chunks whose run finds the same. -/
theorem run_of_walk {rounds : Nat} {r after : Decoder} (h : r.stream.Sound)
    (enough : r.stream.ahead.length < rounds) (walked : walk rounds r = .ok () after) :
    ∃ chunks rest, r.stream.ahead = chunks.flatMap StoredChunk.bytes ++ rest ∧
      (r.found.options.confirmChecksums = true → ∀ c ∈ chunks, c.Intact) ∧
      Ended chunks rest ∧ Run r.found chunks after.found := by
  induction rounds generalizing r with
  | zero => omega
  | succ rounds ih =>
    by_cases atEnd : r.stream.atEnd = true
    · rw [walk_at_end atEnd] at walked
      cases walked
      rw [atEnd_iff h] at atEnd
      refine ⟨[], [], atEnd, ?_, ended_nil_iff.mpr rfl, .empty _⟩
      intro _ c hc
      exact absurd hc List.not_mem_nil
    obtain ⟨c, rest, w, notes, known, intact, taken, walked⟩ := taken_of_walk h atEnd walked
    have fewer := length_past_lt known
    unfold goOn at walked
    by_cases last : c.name = Name.terminator
    · rw [if_pos last] at walked
      cases walked
      refine ⟨[c], rest, ?_, ?_, (ended_last_iff last).mpr rfl, .next taken (.empty _)⟩
      · simpa using known
      · intro confirm d hd
        rw [List.mem_singleton.mp hd]
        exact intact confirm
    · rw [if_neg last] at walked
      obtain ⟨chunks, later, split, others, ended, run⟩ :=
        ih (r := ⟨past r.stream c, w, notes⟩) (h.seek _) (by dsimp only; omega) walked
      refine ⟨c :: chunks, later, ?_, ?_, (ended_cons_iff last).mpr ended, .next taken run⟩
      · rw [known, List.flatMap_cons, List.append_assoc, ← split]
        exact congrArg _ (ahead_past known).symm
      · intro confirm
        refine List.forall_mem_cons.mpr ⟨intact confirm, others ?_⟩
        change w.options.confirmChecksums = true
        rw [taken.options_eq]
        exact confirm

end PackageAssets.Png
