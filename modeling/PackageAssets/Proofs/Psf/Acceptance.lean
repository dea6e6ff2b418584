import PackageAssets.Proofs.Psf.Fields
import PackageAssets.Proofs.Psf.Lookup
import PackageAssets.Proofs.Psf.Requests
import PackageAssets.Proofs.Stream.Requests

/-!
# What the PSF reader accepts

The reader accepts the well-formed files and finds in them what their bytes
say. Whatever was asked of it before, the answer is the same: a request leaves
the reader with nothing found or with the header and the records, and the next
one starts over from the start of the file or goes on from these.
-/
namespace PackageAssets.Psf

/-- How a file that is not well-formed is refused: as no PSF file, or as cut short. -/
def refusal (file : List UInt8) : ErrorClass :=
  if magic.length ≤ file.length ∧ ¬magic <+: file then .format else .truncated

theorem refusal_of_named {file : List UInt8} (named : magic <+: file) :
    refusal file = .truncated := if_neg fun foreign => foreign.2 named

/-- What the header and the records of a file make of a reader. -/
def contentsIn (file : List UInt8) : Contents := ⟨some (headerIn file), recordsIn file⟩

/-- A reader of the file, wherever it stands, that has found nothing or all there is to find. -/
structure Over (file : List UInt8) (r : Decoder) : Prop where
  sound : r.stream.Sound
  visible : r.stream.visible = file
  found : r.found = ⟨none, []⟩ ∨ Headed file ∧ r.found = contentsIn file

theorem over_start {s : Stream} (h : s.Sound) : Over s.visible (Decoder.start s) :=
  ⟨h, rfl, Or.inl rfl⟩

/-! ### Header and records -/

section Headers

variable {file : List UInt8} {r : Decoder}

/-- What is left to do once the header was read. -/
def takeRecords (header : Header) : DecoderM Unit := do
  let needed := header.pairCount * recordSize
  let remaining := (← get).stream.remaining
  if remaining < needed then
    throw (.io (.notEnough (headerSize + needed) (headerSize + remaining)))
  let records ← Reading.onStream (readRecords header.pairCount [])
  Reading.modifyFound fun _ => ⟨some header, records⟩

/-- What a reader that has found nothing does. -/
def readFront : DecoderM Unit := do
  Reading.onStream (Stream.setPosition 0)
  let found ← Reading.onStream (Stream.readExact magic.length)
  if found ≠ magic then throw (.wrongMagic found)
  let header ← Reading.onStream readHeader
  Reading.note .debug .tableReader s!"PSF version: {versionText header.version}"
  Reading.note .debug .tableReader s!"PSF key table: {header.keyTable}"
  Reading.note .debug .tableReader s!"PSF value table: {header.valueTable}"
  Reading.note .debug .tableReader s!"PSF entries: {header.pairCount}"
  takeRecords header

theorem decodeHeaders_fresh (fresh : r.found = ⟨none, []⟩) : decodeHeaders r = readFront r := by
  rw [decodeHeaders, bind_of_ok (Reading.soFar_eq_ok r), fresh]
  rfl

theorem decodeHeaders_again (found : r.found = contentsIn file) : decodeHeaders r = .ok () r := by
  rw [decodeHeaders, bind_of_ok (Reading.soFar_eq_ok r), found]
  rfl

theorem Over.ahead_seek (onFile : Over file r) (position : Nat) :
    (r.stream.seek position).ahead = file.drop position := by
  rw [Stream.ahead_seek, onFile.visible]

theorem take_magic_eq_iff : file.take magic.length = magic ↔ magic <+: file := by
  rw [List.prefix_iff_eq_take, eq_comm]

theorem readMagic_eq (onFile : Over file r) :
    Stream.readExact magic.length (r.stream.seek 0) =
      if magic.length ≤ file.length then .ok (file.take magic.length) (r.stream.seek 4)
      else .error (.notEnough magic.length file.length) (r.stream.seek 0) := by
  have read := Stream.readExact_eq (onFile.sound.seek 0) magic.length
  rw [onFile.ahead_seek, List.drop_zero] at read
  exact read

/-- The records are all that is left to read of a file that has a header. -/
theorem readFront_named (onFile : Over file r) (named : magic <+: file)
    (long : headerSize ≤ file.length) :
    ∃ notes, readFront r =
      takeRecords (headerIn file) ⟨r.stream.seek headerSize, r.found, notes⟩ := by
  have start : Stream.setPosition 0 r.stream = .ok () (r.stream.seek 0) := rfl
  have first := readMagic_eq onFile
  have header := takes_readHeader.enough (onFile.sound.seek 4) (by
    rw [onFile.ahead_seek, List.length_drop]
    unfold headerSize at long
    omega)
  rw [if_pos (Nat.le_trans (by decide) long), take_magic_eq_iff.mpr named] at first
  rw [onFile.ahead_seek, headerAt_take_drop] at header
  rw [readFront, bind_of_ok (Reading.onStream_of_ok start),
    bind_of_ok (Reading.onStream_of_ok first), if_neg (not_not_intro rfl)]
  dsimp only
  rw [bind_of_ok (Reading.onStream_of_ok header), bind_of_ok (Reading.note_eq_ok ..),
    bind_of_ok (Reading.note_eq_ok ..), bind_of_ok (Reading.note_eq_ok ..),
    bind_of_ok (Reading.note_eq_ok ..)]
  exact ⟨_, rfl⟩

theorem recordsIn_eq : (List.range (headerIn file).pairCount).map (fun i => recordAt
    ((file.drop headerSize).take (recordSize * (headerIn file).pairCount)) (recordSize * i)) =
      recordsIn file := by
  apply List.map_congr_left
  intro i hi
  have inside : recordSize * i + recordSize ≤ recordSize * (headerIn file).pairCount :=
    Nat.mul_le_mul_left recordSize (List.mem_range.mp hi)
  unfold recordSize at inside ⊢
  simp only [recordAt]
  rw [numberAt_take _ (by omega), numberAt_take _ (by omega), numberAt_take _ (by omega),
    numberAt_take _ (by omega), numberAt_take _ (by omega), numberAt_take _ (by omega)]
  simp only [numberAt_drop, Nat.add_assoc]

theorem takeRecords_eq (onFile : Over file r) (long : headerSize ≤ file.length)
    (notes : List Note) :
    takeRecords (headerIn file) ⟨r.stream.seek headerSize, r.found, notes⟩ =
      if headerSize + recordSize * (headerIn file).pairCount ≤ file.length then
        .ok () ⟨r.stream.seek (headerSize + recordSize * (headerIn file).pairCount),
          contentsIn file, notes⟩
      else .error (.io (.notEnough (headerSize + (headerIn file).pairCount * recordSize)
          (headerSize + (file.length - headerSize))))
        ⟨r.stream.seek headerSize, r.found, notes⟩ := by
  have remains : (r.stream.seek headerSize).remaining = file.length - headerSize := by
    rw [← Stream.length_ahead (onFile.sound.seek _), onFile.ahead_seek, List.length_drop]
  rw [takeRecords, bind_of_ok (get_eq_ok _)]
  dsimp only
  rw [remains]
  by_cases counted : headerSize + recordSize * (headerIn file).pairCount ≤ file.length
  · have records := (takes_readRecords (headerIn file).pairCount []).enough
      (onFile.sound.seek headerSize) (by
        rw [onFile.ahead_seek, List.length_drop]
        omega)
    rw [onFile.ahead_seek, recordsIn_eq, List.reverse_nil, List.nil_append] at records
    rw [if_neg (by rw [Nat.mul_comm]; omega), if_pos counted,
      bind_of_ok (Reading.onStream_of_ok records)]
    rfl
  · rw [if_pos (by rw [Nat.mul_comm]; omega), if_neg counted]
    rfl

/-- A reader that has found nothing finds the header and the records, or tells what is wrong. -/
theorem readFront_cases (onFile : Over file r) :
    Headed file ∧ (∃ position notes, readFront r =
      .ok () ⟨r.stream.seek position, contentsIn file, notes⟩) ∨
    ¬Headed file ∧ ∃ e position notes, readFront r =
      .error e ⟨r.stream.seek position, r.found, notes⟩ ∧ e.kind = refusal file := by
  have start : Stream.setPosition 0 r.stream = .ok () (r.stream.seek 0) := rfl
  have first := readMagic_eq onFile
  by_cases short : file.length < magic.length
  · rw [if_neg (Nat.not_le.mpr short)] at first
    refine Or.inr ⟨fun headed => ?_, .io (.notEnough magic.length file.length), 0, r.notes, ?_, ?_⟩
    · exact Nat.not_le.mpr short headed.named.length_le
    · rw [readFront, bind_of_ok (Reading.onStream_of_ok start)]
      exact bind_of_error (Reading.onStream_of_error first)
    · exact (if_neg fun foreign => Nat.not_le.mpr short foreign.1).symm
  rw [Nat.not_lt] at short
  by_cases named : magic <+: file
  · by_cases long : headerSize ≤ file.length
    · obtain ⟨notes, read⟩ := readFront_named onFile named long
      rw [takeRecords_eq onFile long] at read
      by_cases counted : headerSize + recordSize * (headerIn file).pairCount ≤ file.length
      · rw [if_pos counted] at read
        exact Or.inl ⟨⟨long, named, counted⟩, _, _, read⟩
      · rw [if_neg counted] at read
        exact Or.inr ⟨fun headed => counted headed.counted, _, _, _, read,
          (refusal_of_named named).symm⟩
    · have cut : (file.drop 4).length < 16 := by
        rw [List.length_drop]
        unfold headerSize at long
        omega
      obtain ⟨expected, found, moved, fails⟩ := takes_readHeader.short cut
      have header := fails (onFile.sound.seek 4) (onFile.ahead_seek 4)
      refine Or.inr ⟨fun headed => long headed.long, .io (.notEnough expected found), 4 + moved,
        r.notes, ?_, (refusal_of_named named).symm⟩
      rw [if_pos short, take_magic_eq_iff.mpr named] at first
      rw [readFront, bind_of_ok (Reading.onStream_of_ok start),
        bind_of_ok (Reading.onStream_of_ok first), if_neg (not_not_intro rfl)]
      dsimp only
      exact bind_of_error (Reading.onStream_of_error header)
  · refine Or.inr ⟨fun headed => named headed.named, .wrongMagic (file.take magic.length), 4,
      r.notes, ?_, (if_pos ⟨short, named⟩).symm⟩
    rw [if_pos short] at first
    rw [readFront, bind_of_ok (Reading.onStream_of_ok start),
      bind_of_ok (Reading.onStream_of_ok first),
      if_pos fun same => named (take_magic_eq_iff.mp same)]
    rfl

/-- The headers are read from every state of the reader alike, and leave it as it has to be. -/
theorem decodeHeaders_cases (onFile : Over file r) :
    Headed file ∧ (∃ after, decodeHeaders r = .ok () after ∧ Over file after ∧
      after.found = contentsIn file) ∨
    ¬Headed file ∧ ∃ e after, decodeHeaders r = .error e after ∧ Over file after ∧
      e.kind = refusal file := by
  rcases onFile.found with fresh | ⟨headed, found⟩
  · rw [decodeHeaders_fresh fresh]
    rcases readFront_cases onFile with ⟨headed, position, notes, read⟩ | ⟨other, e, position, notes,
      read, kind⟩
    · exact Or.inl ⟨headed, _, read, ⟨onFile.sound.seek position, onFile.visible,
        Or.inr ⟨headed, rfl⟩⟩, rfl⟩
    · exact Or.inr ⟨other, e, _, read, ⟨onFile.sound.seek position, onFile.visible, Or.inl fresh⟩,
        kind⟩
  · exact Or.inl ⟨headed, r, decodeHeaders_again found, onFile, found⟩

end Headers

/-! ### Pairs -/

section Pairs

variable {file : List UInt8} {keys values : Stream} {record : Record} {r : Decoder}

/-- Views of the two tables of a file, both up to its end. -/
structure Tables (file : List UInt8) (keys values : Stream) : Prop where
  soundKeys : keys.Sound
  visibleKeys : keys.visible = file.drop (headerIn file).keyTable
  soundValues : values.Sound
  visibleValues : values.visible = file.drop (headerIn file).valueTable

namespace Tables

theorem length_keys (tables : Tables file keys values) :
    keys.length = file.length - (headerIn file).keyTable := by
  rw [← Stream.length_visible tables.soundKeys, tables.visibleKeys, List.length_drop]

theorem length_values (tables : Tables file keys values) :
    values.length = file.length - (headerIn file).valueTable := by
  rw [← Stream.length_visible tables.soundValues, tables.visibleValues, List.length_drop]

theorem readKey_of_lt (tables : Tables file keys values)
    (inside : record.keyOffset < file.length - (headerIn file).keyTable) :
    readKey keys record = .ok (keyIn file record) := by
  rw [readKey_eq tables.soundKeys, tables.length_keys, if_pos inside, tables.visibleKeys,
    List.drop_drop]
  rfl

theorem readPair_within (tables : Tables file keys values) (within : record.Within file) :
    readKey keys record = .ok (keyIn file record) ∧
      readValue values record = .ok (valueIn file record) := by
  refine ⟨tables.readKey_of_lt within.key, ?_⟩
  have full : ¬(record.valueType = 4 ∧ record.valueSize < 4) :=
    fun few => Nat.not_le.mpr few.2 (within.int few.1)
  rw [readValue_eq tables.soundValues, tables.length_values, if_pos within.value, if_neg full,
    tables.visibleValues, List.drop_drop]
  rfl

theorem readPair_outside (tables : Tables file keys values) (outside : ¬record.Within file) :
    ∃ e : Error, e.kind = .truncated ∧ (readKey keys record = .error e ∨
      (∃ key, readKey keys record = .ok key) ∧ readValue values record = .error e) := by
  by_cases key : record.keyOffset < file.length - (headerIn file).keyTable
  · have found := tables.readKey_of_lt key
    have value := readValue_eq tables.soundValues record
    rw [tables.length_values] at value
    by_cases inside :
        record.valueOffset + record.valueSize ≤ file.length - (headerIn file).valueTable
    · have few : record.valueType = 4 ∧ record.valueSize < 4 := by
        apply Classical.byContradiction
        intro full
        exact outside ⟨key, inside, fun int => by omega⟩
      rw [if_pos inside, if_pos few] at value
      exact ⟨_, rfl, Or.inr ⟨⟨_, found⟩, value⟩⟩
    · rw [if_neg inside] at value
      exact ⟨_, rfl, Or.inr ⟨⟨_, found⟩, value⟩⟩
  · have missing := readKey_eq tables.soundKeys record
    rw [tables.length_keys, if_neg key] at missing
    exact ⟨_, rfl, Or.inl missing⟩

theorem resolve_cases (tables : Tables file keys values) (records : List Record)
    (done : List (String × Value)) (r : Decoder) :
    (∀ record ∈ records, record.Within file) ∧ (∃ notes, resolve keys values records done r =
      .ok (done.reverse ++ records.map (pairIn file)) { r with notes }) ∨
    (∃ record ∈ records, ¬record.Within file) ∧ ∃ e notes, resolve keys values records done r =
      .error e { r with notes } ∧ e.kind = .truncated := by
  induction records generalizing done r with
  | nil =>
    refine Or.inl ⟨fun record member => absurd member List.not_mem_nil, r.notes, ?_⟩
    rw [List.map_nil, List.append_nil]
    rfl
  | cons record records ih =>
    by_cases within : record.Within file
    · obtain ⟨key, value⟩ := tables.readPair_within within
      have step : resolve keys values (record :: records) done r =
          resolve keys values records (pairIn file record :: done) { r with
            notes := r.notes ++ [resolvedNote record (pairIn file record)] } := by
        rw [resolve, key, value]
        exact bind_of_ok (Reading.note_eq_ok _ _ _ r)
      rw [step]
      rcases ih (pairIn file record :: done) { r with
          notes := r.notes ++ [resolvedNote record (pairIn file record)] } with
        ⟨others, notes, read⟩ | ⟨⟨other, member, outside⟩, e, notes, read, kind⟩
      · rw [List.reverse_cons, List.append_assoc] at read
        exact Or.inl ⟨List.forall_mem_cons.mpr ⟨within, others⟩, notes, read⟩
      · exact Or.inr ⟨⟨other, List.mem_cons_of_mem record member, outside⟩, e, notes, read, kind⟩
    · obtain ⟨e, kind, missing | ⟨⟨key, found⟩, missing⟩⟩ := tables.readPair_outside within
      · refine Or.inr ⟨⟨record, List.mem_cons_self, within⟩, e, r.notes, ?_, kind⟩
        rw [resolve, missing]
        rfl
      · refine Or.inr ⟨⟨record, List.mem_cons_self, within⟩, e, r.notes, ?_, kind⟩
        rw [resolve, found, missing]
        rfl

end Tables

theorem takePairs_short (onFile : Over file r)
    (short : file.length < max (headerIn file).keyTable (headerIn file).valueTable) :
    takePairs (headerIn file) (recordsIn file) r = .error (.io (.notEnough
      (max (headerIn file).keyTable (headerIn file).valueTable) file.length)) r := by
  rw [takePairs, bind_of_ok (get_eq_ok r)]
  dsimp only
  rw [← Stream.length_visible onFile.sound, onFile.visible, if_pos short]
  rfl

theorem takePairs_long (onFile : Over file r)
    (long : ¬file.length < max (headerIn file).keyTable (headerIn file).valueTable) :
    ∃ keys values, Tables file keys values ∧ takePairs (headerIn file) (recordsIn file) r =
      resolve keys values (recordsIn file) [] r := by
  have size := Stream.length_visible onFile.sound
  rw [onFile.visible] at size
  have insideKeys : (headerIn file).keyTable ≤ r.stream.length := by omega
  have insideValues : (headerIn file).valueTable ≤ r.stream.length := by omega
  obtain ⟨keys, hkeys, soundKeys, visibleKeys, -⟩ := Stream.exists_view_from onFile.sound insideKeys
  obtain ⟨values, hvalues, soundValues, visibleValues, -⟩ :=
    Stream.exists_view_from onFile.sound insideValues
  rw [onFile.visible] at visibleKeys visibleValues
  refine ⟨keys, values, ⟨soundKeys, visibleKeys, soundValues, visibleValues⟩, ?_⟩
  rw [takePairs, bind_of_ok (get_eq_ok r)]
  dsimp only
  rw [← size, if_neg long, sliceFrom, hkeys, sliceFrom, hvalues]

/-- The pairs are found in every state of the reader alike. -/
theorem decodePairs_cases (onFile : Over file r) :
    WellFormed file ∧ (∃ after, decodePairs r = .ok (pairsIn file) after ∧ Over file after) ∨
    ¬WellFormed file ∧ ∃ e after, decodePairs r = .error e after ∧ Over file after ∧
      e.kind = refusal file := by
  rcases decodeHeaders_cases onFile with
    ⟨headed, t, read, next, found⟩ | ⟨other, e, t, read, next, kind⟩
  · have rest : decodePairs r = takePairs (headerIn file) (recordsIn file) t := by
      have known : t.found.header = some (headerIn file) := congrArg Contents.header found
      rw [decodePairs_eq, bind_of_ok read, readFound_eq known, found]
      rfl
    rw [rest]
    by_cases short : file.length < max (headerIn file).keyTable (headerIn file).valueTable
    · refine Or.inr ⟨?_, _, t, takePairs_short next short, next,
        (refusal_of_named headed.named).symm⟩
      intro wellFormed
      have keyTable := wellFormed.keyTable
      have valueTable := wellFormed.valueTable
      omega
    · obtain ⟨keys, values, tables, resolved⟩ := takePairs_long next short
      rw [resolved]
      rcases tables.resolve_cases (recordsIn file) [] t with
        ⟨within, notes, read⟩ | ⟨⟨record, member, outside⟩, e, notes, read, kind⟩
      · exact Or.inl ⟨⟨headed, by omega, by omega, within⟩, _, read, next.sound, next.visible,
          next.found⟩
      · exact Or.inr ⟨fun wellFormed => outside (wellFormed.records record member), e, _, read,
          ⟨next.sound, next.visible, next.found⟩, kind.trans (refusal_of_named headed.named).symm⟩
  · exact Or.inr ⟨fun wellFormed => other wellFormed.toHeaded, e, t, bind_of_error read, next, kind⟩

/-- The dictionary is made of the pairs, whatever they are. -/
theorem decode_cases (onFile : Over file r) :
    WellFormed file ∧ (∃ after, decode r = .ok (.ofPairs (pairsIn file)) after ∧
      Over file after) ∨
    ¬WellFormed file ∧ ∃ e after, decode r = .error e after ∧ Over file after ∧
      e.kind = refusal file := by
  rcases decodePairs_cases onFile with ⟨wellFormed, t, read, next⟩ | ⟨other, e, t, read, next, kind⟩
  · obtain ⟨notes, collected⟩ := collect_eq (pairsIn file) .empty t
    exact Or.inl ⟨wellFormed, _, (bind_of_ok read).trans collected, next.sound, next.visible,
      next.found⟩
  · exact Or.inr ⟨other, e, t, bind_of_error read, next, kind⟩

end Pairs

/-! ### Requests -/

/-- A request does nothing to the reader that shows. -/
theorem over_ask {file : List UInt8} (request : Request) (r : Decoder) (onFile : Over file r) :
    Over file (leftBy (ask request r)) := by
  cases request with
  | headers =>
    rcases decodeHeaders_cases onFile with ⟨-, t, read, next, -⟩ | ⟨-, e, t, read, next, -⟩
    · rw [ask, bind_of_ok read]
      exact next
    · rw [ask, bind_of_error read]
      exact next
  | pairs =>
    rcases decodePairs_cases onFile with ⟨-, t, read, next⟩ | ⟨-, e, t, read, next, -⟩
    · rw [ask, bind_of_ok read]
      exact next
    · rw [ask, bind_of_error read]
      exact next
  | dictionary =>
    rcases decode_cases onFile with ⟨-, t, read, next⟩ | ⟨-, e, t, read, next, -⟩
    · rw [ask, bind_of_ok read]
      exact next
    · rw [ask, bind_of_error read]
      exact next

/--
Whatever was asked before, the reader finds the pairs of just the well-formed files, and of them
the dictionary in which the last pair of each key counts. It refuses every other file, in the same
way each time.
-/
theorem decodePairs_accepts_wellFormed {s : Stream} (h : s.Sound) (requests : List Request) :
    let r := (Reading.askAll ask requests (Decoder.start s)).2
    ((∃ pairs after, decodePairs r = .ok pairs after) ↔ WellFormed s.visible) ∧
    (WellFormed s.visible →
      (∃ after, decodePairs r = .ok (pairsIn s.visible) after) ∧
      ∃ d after, decode r = .ok d after ∧
        ∀ key, d.get? key = (pairsIn s.visible).reverse.lookup key) ∧
    (¬WellFormed s.visible →
      (∃ e after, decodePairs r = .error e after ∧ e.kind = refusal s.visible) ∧
      ∃ e after, decode r = .error e after ∧ e.kind = refusal s.visible) := by
  intro r
  have onFile : Over s.visible r := Reading.askAll_keeps over_ask (over_start h) requests
  refine ⟨⟨?_, ?_⟩, ?_, ?_⟩
  · rintro ⟨pairs, after, read⟩
    rcases decodePairs_cases onFile with ⟨wellFormed, -⟩ | ⟨-, e, t, refused, -⟩
    · exact wellFormed
    · rw [read] at refused
      cases refused
  · intro wellFormed
    rcases decodePairs_cases onFile with ⟨-, after, read, -⟩ | ⟨other, -⟩
    · exact ⟨_, after, read⟩
    · exact absurd wellFormed other
  · intro wellFormed
    constructor
    · rcases decodePairs_cases onFile with ⟨-, after, read, -⟩ | ⟨other, -⟩
      · exact ⟨after, read⟩
      · exact absurd wellFormed other
    · rcases decode_cases onFile with ⟨-, after, read, -⟩ | ⟨other, -⟩
      · exact ⟨_, after, read, fun key => Dictionary.get?_ofPairs (pairsIn s.visible) key⟩
      · exact absurd wellFormed other
  · intro other
    constructor
    · rcases decodePairs_cases onFile with ⟨wellFormed, -⟩ | ⟨-, e, after, refused, -, kind⟩
      · exact absurd wellFormed other
      · exact ⟨e, after, refused, kind⟩
    · rcases decode_cases onFile with ⟨wellFormed, -⟩ | ⟨-, e, after, refused, -, kind⟩
      · exact absurd wellFormed other
      · exact ⟨e, after, refused, kind⟩

/-- A file of two pairs with one key, the second of them a number; the tables overlap. -/
def sharedKeyFile : List UInt8 :=
  magic ++ [1, 1, 0, 0] ++ [52, 0, 0, 0] ++ [52, 0, 0, 0] ++ [2, 0, 0, 0] ++
    [0, 0, 4, 2, 2, 0, 0, 0, 4, 0, 0, 0, 0, 0, 0, 0] ++
    [0, 0, 4, 4, 4, 0, 0, 0, 4, 0, 0, 0, 0, 0, 0, 0] ++ [0x41, 0, 0, 0]

theorem decodePairs_accepts_sharedKeyFile :
    let r := (Reading.askAll ask [.dictionary, .headers]
      (Decoder.start (.ofBytes sharedKeyFile))).2
    (∃ after, decodePairs r = .ok [("A", .text "A"), ("A", .int 65)] after) ∧
      ∃ d after, decode r = .ok d after ∧ d.get? "A" = some (.int 65) := by
  have small : sharedKeyFile.length < Count.bound := by decide
  have sound : (Stream.ofBytes sharedKeyFile).Sound := Stream.sound_ofBytes small
  have wellFormed : WellFormed (Stream.ofBytes sharedKeyFile).visible := by decide
  have pairs : pairsIn (Stream.ofBytes sharedKeyFile).visible =
      [("A", .text "A"), ("A", .int 65)] := by decide
  obtain ⟨-, found, -⟩ := decodePairs_accepts_wellFormed sound [.dictionary, .headers]
  obtain ⟨read, d, after, decoded, get⟩ := found wellFormed
  rw [pairs] at read
  refine ⟨read, d, after, decoded, ?_⟩
  rw [get, pairs]
  decide

end PackageAssets.Psf
