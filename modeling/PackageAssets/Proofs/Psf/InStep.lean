import PackageAssets.Proofs.Psf.Fields
import PackageAssets.Proofs.Psf.Requests
import PackageAssets.Proofs.Stream.Twins

/-!
# Reading PSF in step

Offsets count from the start of the window, so over windows that show the same
bytes readers find the same pairs or fail alike. The views of the two tables are
made only when they lie inside the window, and keys and values are refused
before a view could be, so every failure is one of the data.
-/
namespace PackageAssets.Psf

theorem ofData_of_short (e : IoError) (short : Stream.Short e) : OfData Error.kind (.io e) :=
  Stream.ofData_of_short (fun _ => rfl) e short

/-- Two readers found the same, each on its stream, with the same before them and behind them. -/
abbrev Together (s₀ t₀ : Stream) : Decoder → Decoder → Prop :=
  Reading.Alike (Stream.Beside 0 s₀ t₀) Eq

/-! ### Keys and values -/

theorem kind_of_readKey {table : Stream} (h : table.Sound) {record : Record} {e : Error}
    (failed : readKey table record = .error e) : e.kind = .truncated := by
  rw [readKey_eq h] at failed
  split at failed
  · cases failed
  · cases failed
    rfl

theorem kind_of_readValue {table : Stream} (h : table.Sound) {record : Record} {e : Error}
    (failed : readValue table record = .error e) : e.kind = .truncated := by
  rw [readValue_eq h] at failed
  split at failed
  · split at failed
    · cases failed
      rfl
    · cases failed
  · cases failed
    rfl

section Tables

variable {v w : Stream} (view : Stream.SameView v w)

include view

theorem readKey_congr (record : Record) : readKey v record = readKey w record := by
  rw [readKey_eq view.twins.left, readKey_eq view.twins.right, view.visible_eq, view.length_eq]

theorem readValue_congr (record : Record) : readValue v record = readValue w record := by
  rw [readValue_eq view.twins.left, readValue_eq view.twins.right, view.visible_eq, view.length_eq]

end Tables

/-! ### Runs in step -/

section

variable {s₀ t₀ : Stream} {r r' : Decoder} (twins : Stream.Twins 0 s₀ t₀)
  (alike : Together s₀ t₀ r r')

include twins alike

/-- The headers are read in step, and then there is one. -/
theorem decodeHeaders_inStep :
    InStep (OfData Error.kind) (Together s₀ t₀)
      (fun _ _ r r' => Together s₀ t₀ r r' ∧ ∃ header, r.found.header = some header)
      (decodeHeaders r) (decodeHeaders r') := by
  unfold decodeHeaders
  refine (Reading.soFar_inStep alike).bind ?_
  rintro _ _ r r' ⟨rfl, rfl, alike⟩
  rw [← alike.found]
  refine .ite (fun known => .ok ⟨alike, Option.isSome_iff_exists.mp known⟩) fun _ => ?_
  refine (Reading.onStream_equally alike ofData_of_short
    (Stream.goTo_inStep alike.stream 0)).next fun _ r r' alike => ?_
  refine (Reading.takes_inStep (Stream.takes_readExact magic.length) twins alike
    ofData_of_short).next fun found r r' alike => ?_
  refine .ite (fun _ => .stop (ofData rfl) alike) fun _ => ?_
  refine (Reading.takes_inStep takes_readHeader twins alike
    ofData_of_short).next fun header r r' alike => ?_
  refine (Reading.note_inStep _ _ _ alike).next fun _ r r' alike => ?_
  refine (Reading.note_inStep _ _ _ alike).next fun _ r r' alike => ?_
  refine (Reading.note_inStep _ _ _ alike).next fun _ r r' alike => ?_
  refine (Reading.note_inStep _ _ _ alike).next fun _ r r' alike => ?_
  refine (Reading.get_inStep alike).bind ?_
  rintro r r' _ _ ⟨rfl, rfl, alike⟩
  rw [alike.stream.remaining_eq twins]
  refine .ite (fun _ => .stop (ofData_truncated rfl) alike) fun _ => ?_
  refine (Reading.takes_inStep (takes_readRecords header.pairCount []) twins alike
    ofData_of_short).next fun records r r' alike => ?_
  exact .ok ⟨⟨alike.stream, rfl, alike.notes⟩, header, rfl⟩

omit twins in
/-- Records are resolved in step in tables that hold the same bytes. -/
theorem resolve_inStep {keys keys' values values' : Stream} (sameKeys : Stream.SameView keys keys')
    (sameValues : Stream.SameView values values') (records : List Record)
    (done : List (String × Value)) :
    InStep (OfData Error.kind) (Together s₀ t₀) (Equally (Together s₀ t₀))
      (resolve keys values records done r) (resolve keys' values' records done r') := by
  induction records generalizing done r r' with
  | nil => exact .pure alike done.reverse
  | cons record records ih =>
    unfold resolve
    rw [← readKey_congr sameKeys, ← readValue_congr sameValues]
    cases key : readKey keys record with
    | error e => exact .error (ofData_truncated (kind_of_readKey sameKeys.twins.left key)) alike
    | ok key =>
      cases value : readValue values record with
      | error e =>
        exact .error (ofData_truncated (kind_of_readValue sameValues.twins.left value)) alike
      | ok value =>
        exact (Reading.note_inStep _ _ _ alike).next fun _ _ _ alike => ih alike _

/-- Tables inside the window are viewed on both sides, over the same bytes. -/
theorem exists_tables {start : Nat} (inside : start ≤ r'.stream.length) :
    ∃ v w, sliceFrom r.stream (.included start) .unbounded = .ok v ∧
      sliceFrom r'.stream (.included start) .unbounded = .ok w ∧ Stream.SameView v w := by
  have length := alike.stream.length_eq twins
  rw [Nat.zero_add] at length
  have view := Stream.sameView_part twins alike.stream inside (Nat.le_refl _)
  rw [Nat.zero_add, Nat.zero_add, ← length] at view
  refine ⟨_, _, ?_, ?_, view⟩
  · rw [sliceFrom, Stream.slice_from (length ▸ inside)]
  · rw [sliceFrom, Stream.slice_from inside, length]

/-- What was found is looked up in step. -/
theorem takePairs_inStep (header : Header) (records : List Record) :
    InStep (OfData Error.kind) (Together s₀ t₀) (Equally (Together s₀ t₀))
      (takePairs header records r) (takePairs header records r') := by
  unfold takePairs
  refine (Reading.get_inStep alike).bind ?_
  rintro r r' _ _ ⟨rfl, rfl, alike⟩
  have length := alike.stream.length_eq twins
  rw [Nat.zero_add] at length
  dsimp only
  rw [length]
  refine .ite (fun _ => .stop (ofData_truncated rfl) alike) fun inside => ?_
  have keysInside : header.keyTable ≤ r'.stream.length := by omega
  have valuesInside : header.valueTable ≤ r'.stream.length := by omega
  obtain ⟨keys, keys', hkeys, hkeys', sameKeys⟩ := exists_tables twins alike keysInside
  obtain ⟨values, values', hvalues, hvalues', sameValues⟩ := exists_tables twins alike valuesInside
  rw [hkeys, hkeys', hvalues, hvalues']
  exact resolve_inStep alike sameKeys sameValues records []

theorem decodePairs_inStep :
    InStep (OfData Error.kind) (Together s₀ t₀) (Equally (Together s₀ t₀)) (decodePairs r)
      (decodePairs r') := by
  rw [decodePairs_eq]
  refine (decodeHeaders_inStep twins alike).bind ?_
  rintro _ _ r r' ⟨alike, header, known⟩
  have same : r'.found.header = some header := by
    rw [← alike.found]
    exact known
  rw [readFound_eq known, readFound_eq same, ← alike.found]
  exact takePairs_inStep twins alike header r.found.records

omit twins in
theorem collect_inStep (pairs : List (String × Value)) (d : Dictionary) :
    InStep (OfData Error.kind) (Together s₀ t₀) (Equally (Together s₀ t₀)) (collect pairs d r)
      (collect pairs d r') := by
  induction pairs generalizing d r r' with
  | nil => exact .pure alike d
  | cons pair pairs ih =>
    unfold collect
    cases d.get? pair.1 with
    | none => exact ih alike _
    | some previous => exact (Reading.note_inStep _ _ _ alike).next fun _ _ _ alike => ih alike _

theorem decode_inStep :
    InStep (OfData Error.kind) (Together s₀ t₀) (Equally (Together s₀ t₀)) (decode r)
      (decode r') :=
  (decodePairs_inStep twins alike).next fun pairs _ _ alike => collect_inStep alike pairs .empty

end

/-! ### Requests -/

theorem start_together {v w : Stream} (view : Stream.SameView v w) :
    Together v w (Decoder.start v) (Decoder.start w) := ⟨view.beside, rfl, rfl⟩

theorem ask_inStep {s₀ t₀ : Stream} (twins : Stream.Twins 0 s₀ t₀) (request : Request)
    (r r' : Decoder) (alike : Together s₀ t₀ r r') :
    InStep (OfData Error.kind) (Together s₀ t₀) (Equally (Together s₀ t₀)) (ask request r)
      (ask request r') := by
  cases request with
  | headers =>
    have headers := (decodeHeaders_inStep twins alike).done fun _ _ made => made.1
    exact headers.next fun _ _ _ alike => .pure alike Answer.done
  | pairs =>
    exact (decodePairs_inStep twins alike).next fun pairs _ _ alike =>
      .pure alike (Answer.pairs pairs)
  | dictionary =>
    exact (decode_inStep twins alike).next fun found _ _ alike =>
      .pure alike (Answer.dictionary found)

theorem probe_congr {v w : Stream} (view : Stream.SameView v w) : probe v = probe w := by
  have whole := view.whole
  rw [probe, probe, Stream.wholeSlice_eq, Stream.wholeSlice_eq]
  dsimp only
  rw [Stream.readExact_eq whole.twins.left, Stream.readExact_eq whole.twins.right,
    whole.beside.ahead_eq whole.twins]
  by_cases enough : magic.length ≤ (w.part 0 w.length).ahead.length
  · rw [if_pos enough, if_pos enough]
  · rw [if_neg enough, if_neg enough]

end PackageAssets.Psf
