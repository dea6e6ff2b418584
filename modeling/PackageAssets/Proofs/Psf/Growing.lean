import PackageAssets.Proofs.Psf.Layout
import PackageAssets.Proofs.Stream.Sink
import PackageAssets.Proofs.Stream.Transfer

/-!
# The tables as they grow

The writer keeps no offsets of its own: it asks its cursors where they stand. So each
cursor must stand behind all that was written with it, and the values at a multiple of
their alignment. Then the offsets are those of the layout, the tables hold its bytes,
and what is copied behind the header makes up the file.
-/
namespace PackageAssets.Psf

/-- How laying out can end: as it should, with a number that is too large for its field, or with a
table that no vector can hold. -/
inductive Outcome {α : Type} (large crowded : Prop) (good : α → Prop) :
    Except IoError α → Prop where
  | done {a : α} (is : good a) : Outcome large crowded good (.ok a)
  | refused (is : large) : Outcome large crowded good (.error .integerRange)
  | full {e : IoError} (is : crowded) : Outcome large crowded good (.error e)

namespace Outcome

variable {α β : Type} {large crowded : Prop} {good : α → Prop} {x : Except IoError α}

theorem bind {later : β → Prop} {next : α → Except IoError β} (first : Outcome large crowded good x)
    (second : ∀ a, good a → Outcome large crowded later (next a)) :
    Outcome large crowded later (x >>= next) := by
  cases first with
  | done is => exact second _ is
  | refused is => exact .refused is
  | full is => exact .full is

theorem mono {large' crowded' : Prop} {good' : α → Prop} (outcome : Outcome large crowded good x)
    (hlarge : large → large') (hcrowded : crowded → crowded') (hgood : ∀ a, good a → good' a) :
    Outcome large' crowded' good' x := by
  cases outcome with
  | done is => exact .done (hgood _ is)
  | refused is => exact .refused (hlarge is)
  | full is => exact .full (hcrowded is)

end Outcome

section Steps

variable {large crowded : Prop} {s : Stream} {content bytes : List UInt8} {step : StreamM Unit}

theorem narrow_outcome {bits n : Nat} (far : 2 ^ bits ≤ n → large) :
    Outcome large crowded (fun m => m = n ∧ n < 2 ^ bits) (narrow bits n) := by
  unfold narrow
  split
  case isTrue near => exact .done ⟨rfl, near⟩
  case isFalse near => exact .refused (far (Nat.not_lt.mp near))

theorem grown_outcome (h : s.Appended content) (emits : Stream.Emits step bytes)
    (long : Source.longestVector < content.length + bytes.length → crowded) :
    Outcome large crowded (Stream.Appended · (content ++ bytes)) (grown step s) := by
  unfold grown
  cases result : step s with
  | ok a t => exact .done (h.of_ok emits result)
  | error e t =>
    refine .full (long (Nat.lt_of_not_le fun fits => ?_))
    obtain ⟨t, done, -⟩ := h.succeeds emits fits
    cases done.symm.trans result

theorem padding_eq (n : Nat) : Stream.padding tableAlignment n = aligned n - n := by
  unfold Stream.padding aligned tableAlignment
  omega

theorem aligned_outcome (h : s.Appended content)
    (long : Source.longestVector < aligned content.length → crowded) :
    Outcome large crowded (Stream.Appended · (padded content))
      (grown (Stream.writeToAlign tableAlignment 0) s) := by
  have behind := le_aligned content.length
  have same : grown (Stream.writeToAlign tableAlignment 0) s =
      grown (Stream.writeRepeated 0 (aligned content.length - content.length)) s := by
    rw [grown, Stream.writeToAlign_eq (by decide), padding_eq, h.atEnd, grown]
  rw [same, padded_eq]
  refine grown_outcome h (Stream.emits_writeRepeated 0 _) fun beyond => long ?_
  rwa [List.length_replicate, Nat.add_sub_cancel' behind] at beyond

theorem emits_writeValue (value : Value) : Stream.Emits (writeValue value) value.stored := by
  cases value with
  | binary bytes => exact Stream.emits_writeBytes bytes
  | text s => exact Stream.emits_writeText s
  | int n => exact Stream.emits_writeBytes _
  | unit => exact Stream.emits_pure

theorem emits_writeRecord {r : Record} (fits : r.Fits) :
    Stream.Emits (writeRecord r) (recordBytes r) := by
  have short : r.keyOffset < 256 ^ 2 := fits.keyOffset
  have field {n : Nat} (small : n < 2 ^ 32) :
      Stream.Emits (Stream.writeNat .little 4 n) (ByteOrder.little.write 4 n) :=
    Stream.emits_writeNat .little small
  have written := (Stream.emits_writeNat .little short).seq
    ((Stream.emits_writeBytes [UInt8.ofNat r.format]).seq
      ((Stream.emits_writeBytes [UInt8.ofNat r.valueType]).seq
        ((field fits.valueSize).seq ((field fits.paddedSize).seq (field fits.valueOffset)))))
  simp only [recordBytes, List.append_assoc]
  exact written

end Steps

/-! ### The tables of pairs -/

/-- The cursors stand behind these bytes. -/
structure TableCursors.Holds (t : TableCursors) (entries keys values : List UInt8) : Prop where
  entries : t.entries.Appended entries
  keys : t.keys.Appended keys
  values : t.values.Appended values

theorem TableCursors.holds_empty : empty.Holds [] [] [] :=
  ⟨Stream.appended_empty, Stream.appended_empty, Stream.appended_empty⟩

theorem aligned_add {start : Nat} (aligns : tableAlignment ∣ start) (size : Nat) :
    aligned (start + size) = start + aligned size := by
  unfold aligned tableAlignment at *
  omega

theorem dvd_aligned (n : Nat) : tableAlignment ∣ aligned n := Nat.dvd_mul_left tableAlignment _

theorem padded_append {front : List UInt8} (aligns : tableAlignment ∣ front.length)
    (bytes : List UInt8) : padded (front ++ bytes) = front ++ padded bytes := by
  rw [padded_eq, padded_eq, List.append_assoc, List.length_append, aligned_add aligns,
    Nat.add_sub_add_left]

section Pairs

variable {t : TableCursors} {entries keys values : List UInt8}

/-- A pair is added as it is laid out. -/
theorem TableCursors.Holds.add_outcome (h : t.Holds entries keys values)
    (aligns : tableAlignment ∣ values.length) (key : String) (value : Value) :
    Outcome (2 ^ 16 ≤ keys.length ∨ 2 ^ 32 ≤ values.length + aligned value.stored.length)
      (Source.longestVector < keys.length + (storedKey key).length ∨
        Source.longestVector < values.length + aligned value.stored.length ∨
        Source.longestVector < entries.length + recordSize)
      (fun u => keys.length < 2 ^ 16 ∧ values.length + aligned value.stored.length < 2 ^ 32 ∧
        u.Holds (entries ++ recordBytes (recordOf keys.length values.length value))
          (keys ++ storedKey key) (values ++ padded value.stored))
      (t.add key value) := by
  have behind := le_aligned value.stored.length
  have place := aligned_add aligns value.stored.length
  -- the steps of the writer, in their order
  refine (narrow_outcome fun far => .inl (h.keys.atEnd ▸ far)).bind ?_
  rintro _ ⟨rfl, nearKey⟩
  refine (grown_outcome h.keys (Stream.emits_writeText key) .inl).bind fun keys' named => ?_
  refine (narrow_outcome fun far => .inr (by rw [h.values.atEnd] at far; omega)).bind ?_
  rintro _ ⟨rfl, -⟩
  refine (grown_outcome h.values (emits_writeValue value)
    fun long => .inr (.inl (by omega))).bind fun stored valued => ?_
  have size := valued.atEnd
  rw [List.length_append] at size
  refine (narrow_outcome fun far => .inr (by omega)).bind ?_
  rintro _ ⟨rfl, -⟩
  refine (aligned_outcome valued fun long => ?_).bind ?_
  · rw [List.length_append, place] at long
    exact .inr (.inl long)
  rintro values' filled
  rw [padded_append aligns] at filled
  have region := filled.atEnd
  rw [List.length_append, length_padded] at region
  refine (narrow_outcome fun far => .inr (region ▸ far)).bind ?_
  rintro _ ⟨rfl, near⟩
  rw [h.keys.atEnd] at nearKey ⊢
  rw [region] at near
  rw [size, region, h.values.atEnd, Nat.add_sub_cancel_left, Nat.add_sub_cancel_left]
  have fits : (recordOf keys.length values.length value).Fits := fits_recordOf nearKey near
  refine (grown_outcome h.entries (emits_writeRecord fits) fun long => ?_).bind ?_
  · rw [length_recordBytes] at long
    exact .inr (.inr long)
  · exact fun _ recorded => .done ⟨nearKey, near, recorded, named, filled⟩

/-- Pairs are added as they are laid out. -/
theorem TableCursors.Holds.addAll_outcome (h : t.Holds entries keys values)
    (aligns : tableAlignment ∣ values.length) (pairs : List (String × Value)) :
    Outcome (layOut keys.length values.length pairs = .error .integerRange)
      (Source.longestVector < keys.length + (pairs.flatMap fun pair => storedKey pair.1).length ∨
        Source.longestVector < values.length + (valueTableBytes pairs).length ∨
        Source.longestVector < entries.length + recordSize * pairs.length)
      (fun u => ∃ records, layOut keys.length values.length pairs = .ok records ∧
        u.Holds (entries ++ records.flatMap recordBytes)
          (keys ++ pairs.flatMap fun pair => storedKey pair.1) (values ++ valueTableBytes pairs))
      (t.addAll pairs) := by
  induction pairs generalizing t entries keys values with
  | nil =>
    refine .done ⟨[], rfl, ?_⟩
    simpa [valueTableBytes] using h
  | cons pair pairs ih =>
    obtain ⟨key, value⟩ := pair
    have first := h.add_outcome aligns key value
    refine (first.mono layOut_cons_of_large (fun long => ?_) fun _ => id).bind ?_
    · simp only [valueTableBytes, List.flatMap_cons, List.length_append, length_padded,
        List.length_cons, Nat.mul_succ]
      omega
    rintro u ⟨nearKey, near, holds⟩
    have next : layOut keys.length values.length ((key, value) :: pairs) =
        (layOut (keys ++ storedKey key).length (values ++ padded value.stored).length pairs).map
          (recordOf keys.length values.length value :: ·) := by
      rw [layOut_cons_of_small nearKey near, List.length_append, List.length_append, length_padded]
    have still : tableAlignment ∣ (values ++ padded value.stored).length := by
      rw [List.length_append, length_padded]
      exact Nat.dvd_add aligns (dvd_aligned _)
    refine (ih holds still).mono (fun large => ?_) (fun long => ?_) ?_
    · rw [next, large]
      rfl
    · simp only [valueTableBytes, List.flatMap_cons, List.length_append, length_recordBytes,
        List.length_cons, Nat.mul_succ] at long ⊢
      omega
    · rintro last ⟨records, laid, all⟩
      refine ⟨_ :: records, by rw [next, laid]; rfl, ?_⟩
      simpa [valueTableBytes] using all

end Pairs

/-- Each of the tables is no longer than a vector can be. -/
structure TablesFit (pairs : List (String × Value)) : Prop where
  keys : (keyTableBytes pairs).length ≤ Source.longestVector
  values : (valueTableBytes pairs).length ≤ Source.longestVector

/-- The tables of a dictionary hold what was laid out. -/
theorem TableCursors.ofDictionary_outcome (d : Dictionary) :
    Outcome (2 ^ 32 ≤ d.size ∨ layOut 0 0 d.pairs = .error .integerRange) (¬TablesFit d.pairs)
      (fun tables => d.size < 2 ^ 32 ∧ ∃ records, layOut 0 0 d.pairs = .ok records ∧
        tables.Holds (records.flatMap recordBytes) (keyTableBytes d.pairs)
          (valueTableBytes d.pairs))
      (ofDictionary d) := by
  have behind := le_aligned (d.pairs.flatMap fun pair => storedKey pair.1).length
  have keySize : (keyTableBytes d.pairs).length = aligned _ := length_padded _
  refine (narrow_outcome .inl).bind ?_
  rintro _ ⟨-, few⟩
  have all := holds_empty.addAll_outcome (Nat.dvd_zero _) d.pairs
  refine (all.mono .inr (fun long fit => ?_) fun _ => id).bind ?_
  · have keys := fit.keys
    have values := fit.values
    have small : recordSize * d.pairs.length ≤ Source.longestVector := by
      unfold recordSize Source.longestVector
      unfold Dictionary.size at few
      omega
    simp only [List.length_nil, Nat.zero_add] at long
    omega
  rintro tables ⟨records, laid, holds⟩
  simp only [List.nil_append] at holds
  refine (aligned_outcome holds.keys fun long fit => ?_).bind ?_
  · exact Nat.lt_irrefl _ (Nat.lt_of_lt_of_le long (keySize ▸ fit.keys))
  · exact fun _ filled => .done ⟨few, records, laid, holds.entries, filled, holds.values⟩

/-! ### The file -/

section File

variable {version : UInt32} {pairs : List (String × Value)} {records : List Record}
  {tables : TableCursors} {d : Dictionary} {s t : Stream}

theorem writeFile_eq (keys : tables.keys.position = (keyTableBytes pairs).length) :
    writeFile version pairs.length tables = (do
      let header := headerOf version pairs
      Stream.writeBytes magic
      Stream.writeNat .little 4 header.version
      Stream.writeNat .little 4 header.keyTable
      Stream.writeNat .little 4 header.valueTable
      Stream.writeNat .little 4 header.pairCount
      discard (Stream.writeStream (tables.entries.seek 0))
      discard (Stream.writeStream (tables.keys.seek 0))
      discard (Stream.writeStream (tables.values.seek 0))) := by
  rw [writeFile, keys]
  rfl

theorem fits_of_writeFile (keys : tables.keys.position = (keyTableBytes pairs).length)
    (written : writeFile version pairs.length tables s = .ok () t) :
    (headerOf version pairs).Fits := by
  rw [writeFile_eq keys] at written
  obtain ⟨_, _, -, written⟩ := bind_eq_ok_iff.mp written
  obtain ⟨_, _, -, written⟩ := bind_eq_ok_iff.mp written
  obtain ⟨_, _, keyTable, written⟩ := bind_eq_ok_iff.mp written
  obtain ⟨_, _, valueTable, written⟩ := bind_eq_ok_iff.mp written
  obtain ⟨_, _, count, -⟩ := bind_eq_ok_iff.mp written
  exact ⟨version.toNat_lt, Stream.lt_of_writeNat keyTable, Stream.lt_of_writeNat valueTable,
    Stream.lt_of_writeNat count⟩

/-- A table that is copied from its start is written whole. -/
theorem emits_table {bytes : List UInt8} (h : s.Appended bytes) :
    Stream.Emits (discard (Stream.writeStream (s.seek 0))) bytes := by
  have sound : s.Sound :=
    ⟨h.inMemory, Nat.lt_of_le_of_lt (h.holds ▸ h.counted) (by decide), h.atRoot ▸ trivial⟩
  have whole : (s.seek 0).ahead = bytes := by
    rw [Stream.ahead_seek, List.drop_zero, Stream.visible, h.atRoot]
    exact h.holds
  exact whole ▸ Stream.emits_writeStream (sound.seek 0)

theorem emits_writeFile (holds : tables.Holds (records.flatMap recordBytes) (keyTableBytes pairs)
      (valueTableBytes pairs)) (fits : (headerOf version pairs).Fits) :
    Stream.Emits (writeFile version pairs.length tables) (fileBytes version pairs records) := by
  have field {n : Nat} (small : n < 2 ^ 32) :
      Stream.Emits (Stream.writeNat .little 4 n) (ByteOrder.little.write 4 n) :=
    Stream.emits_writeNat .little small
  have written := (Stream.emits_writeBytes magic).seq
    ((field fits.version).seq
      ((field fits.keyTable).seq
        ((field fits.valueTable).seq
          ((field fits.pairCount).seq
            ((emits_table holds.entries).seq
              ((emits_table holds.keys).seq (emits_table holds.values)))))))
  rw [writeFile_eq holds.keys.atEnd]
  simp only [fileBytes, frontBytes, headerBytes, List.append_assoc]
  exact written

theorem counting_eq (step : StreamM Unit) (s : Stream) :
    Stream.counting id step s =
      (step >>= fun _ => do return (← get).position - s.position : StreamM Nat) s := by
  rw [Stream.counting]
  cases result : step s with
  | ok a t =>
    rw [bind_of_ok result, bind_of_ok (get_eq_ok t)]
    rfl
  | error e t =>
    rw [bind_of_error result]
    rfl

theorem encode_eq (made : TableCursors.ofDictionary d = .ok tables) :
    encode version d = Stream.counting id (writeFile version d.size tables) := by
  funext s
  rw [counting_eq, encode, made]
  dsimp only
  rw [bind_of_ok (get_eq_ok s)]

theorem encode_of_error {e : IoError} (failed : TableCursors.ofDictionary d = .error e)
    (s : Stream) : encode version d s = .error e s := by
  rw [encode, failed]
  rfl

/-- A writer that succeeds has laid out the tables and written their file. -/
theorem encode_eq_ok {n : Nat} (written : encode version d s = .ok n t) :
    ∃ tables, TableCursors.ofDictionary d = .ok tables ∧
      writeFile version d.size tables s = .ok () t := by
  cases made : TableCursors.ofDictionary d with
  | error e =>
    rw [encode_of_error made] at written
    cases written
  | ok tables =>
    refine ⟨tables, rfl, ?_⟩
    rw [encode_eq made, Stream.counting] at written
    cases steps : writeFile version d.size tables s with
    | error e t =>
      rw [steps] at written
      cases written
    | ok a t =>
      rw [steps] at written
      cases written
      rfl

/-- What was written is the file of the pairs, and its numbers fit. -/
theorem encodeToBytes_eq_ok {bytes : List UInt8}
    (written : encodeToBytes version d = .ok bytes) :
    ∃ tables records, TableCursors.ofDictionary d = .ok tables ∧ layOut 0 0 d.pairs = .ok records ∧
      tables.Holds (records.flatMap recordBytes) (keyTableBytes d.pairs)
        (valueTableBytes d.pairs) ∧
      (headerOf version d.pairs).Fits ∧ bytes = fileBytes version d.pairs records ∧
      bytes.length < Count.bound := by
  rw [encodeToBytes] at written
  cases hencode : encode version d .empty with
  | error e s =>
    rw [hencode] at written
    cases written
  | ok n sink =>
    rw [hencode] at written
    cases written
    obtain ⟨tables, made, steps⟩ := encode_eq_ok hencode
    have outcome := TableCursors.ofDictionary_outcome d
    rw [made] at outcome
    cases outcome with
    | done is =>
      obtain ⟨-, records, laid, holds⟩ := is
      have fits := fits_of_writeFile holds.keys.atEnd steps
      have done := Stream.appended_empty.of_ok (emits_writeFile holds fits) steps
      have counted := done.counted
      rw [← done.holds] at counted
      exact ⟨tables, records, made, laid, holds, fits, done.holds,
        Nat.lt_of_le_of_lt counted (by decide)⟩

end File

end PackageAssets.Psf
