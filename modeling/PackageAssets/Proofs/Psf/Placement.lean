import PackageAssets.Proofs.Bytes.Offsets
import PackageAssets.Proofs.Psf.Fronts

/-!
# Where things are in a written file

Keys stand one behind the other, values at multiples of four, and the sizes alone
say where. The same sizes say which dictionaries have a file: an offset in a
record or in the header that does not fit its field stops the writer, and nothing
else does. The last key may end anywhere, since no key starts behind it.
-/
namespace PackageAssets.Psf

/-- The bytes that a value takes: text has one byte behind it, and nothing has none. -/
def Value.exactSize : Value → Nat
  | .binary bytes => bytes.length
  | .text s => (Text.utf8 s).length + 1
  | .int _ => 4
  | .unit => 0

theorem Value.length_stored (value : Value) : value.stored.length = value.exactSize := by
  cases value with
  | binary bytes => rfl
  | text s => exact List.length_append
  | int n => exact IntFormat.length_encode _ _
  | unit => rfl

/-- The sizes of the keys, each with a zero byte behind it. -/
def keySizes (pairs : List (String × Value)) : List Nat :=
  pairs.map fun pair => (Text.utf8 pair.1).length + 1

/-- The sizes of the values, each rounded up to a multiple of four. -/
def valueSizes (pairs : List (String × Value)) : List Nat :=
  pairs.map fun pair => aligned pair.2.exactSize

def keyTableStart (pairs : List (String × Value)) : Nat := headerSize + recordSize * pairs.length

def valueTableStart (pairs : List (String × Value)) : Nat :=
  keyTableStart pairs + aligned (keySizes pairs).sum

/-- Every offset fits the field it is stored in. -/
structure Writable (pairs : List (String × Value)) : Prop where
  keys : (keySizes pairs).dropLast.sum ≤ 65535
  values : (valueSizes pairs).sum < 2 ^ 32
  valueTable : valueTableStart pairs < 2 ^ 32

/-- `count` bytes of a file from `start` on. -/
def regionIn (file : List UInt8) (start count : Nat) : List UInt8 := (file.drop start).take count

/-- The file has everything in its place, and nothing else but zeros between. -/
structure LaidOut (version : UInt32) (pairs : List (String × Value)) (file : List UInt8) :
    Prop where
  named : magic <+: file
  header : headerIn file =
    ⟨version.toNat, keyTableStart pairs, valueTableStart pairs, pairs.length⟩
  record : ∀ i, (h : i < pairs.length) → recordAt file (headerSize + recordSize * i) =
    ⟨offsetAt (keySizes pairs) i, 4, pairs[i].2.typeNumber, pairs[i].2.exactSize,
      aligned pairs[i].2.exactSize, offsetAt (valueSizes pairs) i⟩
  key : ∀ i, (h : i < pairs.length) →
    regionIn file (keyTableStart pairs + offsetAt (keySizes pairs) i)
      ((Text.utf8 pairs[i].1).length + 1) = Text.utf8 pairs[i].1 ++ [0]
  keyPadding : regionIn file (keyTableStart pairs + (keySizes pairs).sum)
    (aligned (keySizes pairs).sum - (keySizes pairs).sum) =
      List.replicate (aligned (keySizes pairs).sum - (keySizes pairs).sum) 0
  value : ∀ i, (h : i < pairs.length) →
    regionIn file (valueTableStart pairs + offsetAt (valueSizes pairs) i)
      (aligned pairs[i].2.exactSize) =
        pairs[i].2.stored ++
          List.replicate (aligned pairs[i].2.exactSize - pairs[i].2.exactSize) 0
  length : file.length = valueTableStart pairs + (valueSizes pairs).sum

/-- The values fill their table: they are aligned and in order, and every byte is of one of them. -/
structure Tiled (pairs : List (String × Value)) : Prop where
  rounded : ∀ n, 4 ∣ aligned n ∧ n ≤ aligned n ∧ aligned n < n + 4
  table : 4 ∣ valueTableStart pairs
  starts : ∀ i, 4 ∣ offsetAt (valueSizes pairs) i
  ordered : ∀ i j, (h : i < pairs.length) → i < j →
    offsetAt (valueSizes pairs) i + aligned pairs[i].2.exactSize ≤ offsetAt (valueSizes pairs) j
  covered : ∀ place < (valueSizes pairs).sum, ∃ i, ∃ h : i < pairs.length,
    offsetAt (valueSizes pairs) i ≤ place ∧
      place < offsetAt (valueSizes pairs) i + aligned pairs[i].2.exactSize

/-! ### Sizes -/

section Sizes

variable (pairs : List (String × Value))

@[simp] theorem length_valueSizes : (valueSizes pairs).length = pairs.length := List.length_map _

omit pairs in
theorem aligned_lt (n : Nat) : aligned n < n + 4 := by
  unfold aligned tableAlignment
  omega

theorem length_storedKey (key : String) :
    (storedKey key).length = (Text.utf8 key).length + 1 := List.length_append

theorem keySizes_eq : keySizes pairs = pairs.map fun pair => (storedKey pair.1).length :=
  List.map_congr_left fun _ _ => (length_storedKey _).symm

theorem valueSizes_eq : valueSizes pairs = pairs.map fun pair => (padded pair.2.stored).length :=
  List.map_congr_left fun pair _ => by rw [length_padded, pair.2.length_stored]

theorem length_keyTableBytes : (keyTableBytes pairs).length = aligned (keySizes pairs).sum := by
  rw [keyTableBytes, length_padded, List.length_flatMap, keySizes_eq]

theorem length_valueTableBytes : (valueTableBytes pairs).length = (valueSizes pairs).sum := by
  rw [valueTableBytes, List.length_flatMap, valueSizes_eq]

theorem headerOf_eq (version : UInt32) : headerOf version pairs =
    ⟨version.toNat, keyTableStart pairs, valueTableStart pairs, pairs.length⟩ := by
  rw [headerOf, length_keyTableBytes]
  rfl

theorem tiled : Tiled pairs := by
  have aligns : ∀ size ∈ valueSizes pairs, 4 ∣ size := by
    intro size member
    obtain ⟨pair, -, rfl⟩ := List.mem_map.mp member
    exact dvd_aligned _
  have size (i : Nat) (h : i < (valueSizes pairs).length) (inside : i < pairs.length) :
      (valueSizes pairs)[i] = aligned pairs[i].2.exactSize := List.getElem_map _
  have table : 4 ∣ valueTableStart pairs := by
    have front : 4 ∣ keyTableStart pairs :=
      Nat.dvd_add (by decide) (Nat.dvd_mul_right_of_dvd (by decide) _)
    exact Nat.dvd_add front (dvd_aligned _)
  refine ⟨fun n => ⟨dvd_aligned n, le_aligned n, aligned_lt n⟩, table, dvd_offsetAt aligns,
    ?_, ?_⟩
  · intro i j inside before
    have low : i < (valueSizes pairs).length := by simpa using inside
    rw [← size i low inside]
    exact offsetAt_add_le before low
  · intro place inside
    obtain ⟨i, low, start, stop⟩ := exists_offsetAt inside
    have inside : i < pairs.length := by simpa using low
    rw [size i low inside] at stop
    exact ⟨i, inside, start, stop⟩

end Sizes

/-! ### Which dictionaries have a file -/

section LayOut

variable {keyOffset valueOffset : Nat} {pairs : List (String × Value)}

/-- From these offsets on, every offset of the pairs fits its field; without pairs there is none. -/
def Room (keyOffset valueOffset : Nat) (pairs : List (String × Value)) : Prop :=
  pairs ≠ [] → keyOffset + (keySizes pairs).dropLast.sum < 2 ^ 16 ∧
    valueOffset + (valueSizes pairs).sum < 2 ^ 32

theorem room_cons {key : String} {value : Value} :
    Room keyOffset valueOffset ((key, value) :: pairs) ↔
      (keyOffset < 2 ^ 16 ∧ valueOffset + aligned value.exactSize < 2 ^ 32) ∧
        Room (keyOffset + ((Text.utf8 key).length + 1))
          (valueOffset + aligned value.exactSize) pairs := by
  cases pairs with
  | nil => simp [Room, keySizes, valueSizes]
  | cons pair pairs =>
    simp only [Room, keySizes, valueSizes, List.map_cons, List.dropLast_cons_cons, List.sum_cons,
      ne_eq, reduceCtorEq, not_false_eq_true, forall_const]
    omega

/-- Pairs are laid out just if there is room for them. -/
theorem layOut_cases (keyOffset valueOffset : Nat) (pairs : List (String × Value)) :
    (Room keyOffset valueOffset pairs ∧ ∃ records,
      layOut keyOffset valueOffset pairs = .ok records) ∨
    (¬Room keyOffset valueOffset pairs ∧
      layOut keyOffset valueOffset pairs = .error .integerRange) := by
  induction pairs generalizing keyOffset valueOffset with
  | nil => exact .inl ⟨fun some => absurd rfl some, [], rfl⟩
  | cons pair pairs ih =>
    obtain ⟨key, value⟩ := pair
    have size := value.length_stored
    rw [room_cons]
    by_cases large : 2 ^ 16 ≤ keyOffset ∨ 2 ^ 32 ≤ valueOffset + aligned value.exactSize
    · exact .inr ⟨fun room => by omega, layOut_cons_of_large (size ▸ large)⟩
    · rw [not_or, Nat.not_le, Nat.not_le] at large
      rw [layOut_cons_of_small large.1 (size ▸ large.2), length_storedKey, size]
      rcases ih (keyOffset + ((Text.utf8 key).length + 1))
        (valueOffset + aligned value.exactSize) with ⟨room, records, laid⟩ | ⟨full, refused⟩
      · rw [laid]
        exact .inl ⟨⟨large, room⟩, _, rfl⟩
      · rw [refused]
        exact .inr ⟨fun room => full room.2, rfl⟩

theorem getElem?_layOut {records : List Record}
    (laid : layOut keyOffset valueOffset pairs = .ok records) {i : Nat}
    (inside : i < pairs.length) :
    records[i]? = some (recordOf (keyOffset + offsetAt (keySizes pairs) i)
      (valueOffset + offsetAt (valueSizes pairs) i) pairs[i].2) := by
  induction pairs generalizing keyOffset valueOffset records i with
  | nil => exact absurd inside (Nat.not_lt_zero i)
  | cons pair pairs ih =>
    obtain ⟨key, value⟩ := pair
    obtain ⟨others, rfl, -, -, later⟩ := layOut_cons_eq_ok laid
    cases i with
    | zero => rfl
    | succ i =>
      have next := ih later (Nat.lt_of_succ_lt_succ inside)
      rw [length_storedKey, value.length_stored] at next
      rw [List.getElem?_cons_succ, next]
      simp only [keySizes, valueSizes, List.map_cons, offsetAt_cons_succ, List.getElem_cons_succ,
        Nat.add_assoc]

end LayOut

theorem writeNat_of_large {order : ByteOrder} {width n : Nat} (large : 256 ^ width ≤ n)
    (s : Stream) : Stream.writeNat order width n s = .error .integerRange s := by
  rw [Stream.writeNat, if_neg (Nat.not_lt.mpr large)]
  rfl

section Writing

variable (version : UInt32) {pairs : List (String × Value)} {records : List Record}
  {tables : TableCursors}

theorem Writable.tablesFit (writable : Writable pairs) : TablesFit pairs := by
  have table := writable.valueTable
  have values := writable.values
  unfold valueTableStart at table
  constructor
  · rw [length_keyTableBytes, Source.longestVector]
    omega
  · rw [length_valueTableBytes, Source.longestVector]
    omega

/-- A value table that starts too far on stops the writer in the header. -/
theorem writeFile_of_large (keys : tables.keys.position = (keyTableBytes pairs).length)
    (large : 2 ^ 32 ≤ valueTableStart pairs) :
    ∃ t, writeFile version pairs.length tables .empty = .error .integerRange t := by
  obtain ⟨s, named, appended⟩ :=
    Stream.appended_empty.succeeds (Stream.emits_writeBytes magic) (by decide)
  have small : version.toNat < 256 ^ 4 := version.toNat_lt
  obtain ⟨s, versioned, appended⟩ :=
    appended.succeeds (Stream.emits_writeNat .little small) (by
      rw [ByteOrder.length_write]
      decide)
  rw [writeFile_eq keys, headerOf_eq]
  dsimp only
  rw [bind_of_ok named, bind_of_ok versioned]
  by_cases near : keyTableStart pairs < 256 ^ 4
  · obtain ⟨s, placed, -⟩ :=
      appended.succeeds (Stream.emits_writeNat .little near) (by
        rw [List.length_append, ByteOrder.length_write, ByteOrder.length_write]
        decide)
    rw [bind_of_ok placed]
    exact ⟨s, bind_of_error (writeNat_of_large large s)⟩
  · exact ⟨s, bind_of_error (writeNat_of_large (Nat.not_lt.mp near) s)⟩

theorem writeFile_of_writable (laid : layOut 0 0 pairs = .ok records)
    (holds : tables.Holds (records.flatMap recordBytes) (keyTableBytes pairs)
      (valueTableBytes pairs)) (writable : Writable pairs) :
    ∃ t, writeFile version pairs.length tables .empty = .ok () t := by
  have table := writable.valueTable
  have values := writable.values
  have front : keyTableStart pairs ≤ valueTableStart pairs := Nat.le_add_right _ _
  have count : pairs.length ≤ keyTableStart pairs := by
    unfold keyTableStart recordSize
    omega
  have fits : (headerOf version pairs).Fits := by
    rw [headerOf_eq]
    exact ⟨version.toNat_lt, by dsimp only; omega, table, by dsimp only; omega⟩
  have size : (fileBytes version pairs records).length =
      valueTableStart pairs + (valueSizes pairs).sum := by
    rw [fileBytes, List.length_append, List.length_append,
      length_frontBytes version (length_layOut laid), length_keyTableBytes,
      length_valueTableBytes, headerOf_eq, ← Nat.add_assoc]
    rfl
  obtain ⟨t, written, -⟩ :=
    Stream.appended_empty.succeeds (emits_writeFile holds fits) (by
      rw [size]
      unfold Source.longestVector
      simp only [List.length_nil]
      omega)
  exact ⟨t, written⟩

/-- A dictionary has a file just if it can be written, and is else refused for an offset. -/
theorem encodeToBytes_outcome (d : Dictionary) :
    Outcome (¬Writable d.pairs) (¬TablesFit d.pairs) (fun _ => Writable d.pairs)
      (encodeToBytes version d) := by
  have start : d.size ≤ valueTableStart d.pairs := by
    unfold valueTableStart keyTableStart recordSize Dictionary.size
    omega
  have laidOut := layOut_cases 0 0 d.pairs
  have made := TableCursors.ofDictionary_outcome d
  unfold encodeToBytes
  cases outcome : TableCursors.ofDictionary d with
  | error e =>
    rw [outcome] at made
    rw [encode_of_error outcome]
    cases made with
    | refused large =>
      refine .refused fun writable => ?_
      have keys := writable.keys
      have values := writable.values
      have table := writable.valueTable
      rcases large with many | refused
      · omega
      rcases laidOut with ⟨-, records, laid⟩ | ⟨full, -⟩
      · cases laid.symm.trans refused
      · exact full fun _ => ⟨by omega, by omega⟩
    | full crowded => exact .full crowded
  | ok tables =>
    rw [outcome] at made
    rw [encode_eq outcome, Stream.counting]
    obtain ⟨-, records, laid, holds⟩ : _ ∧ _ := by
      cases made with
      | done is => exact is
    by_cases near : valueTableStart d.pairs < 2 ^ 32
    · have writable : Writable d.pairs := by
        by_cases none : d.pairs = []
        · rw [none]
          exact ⟨by decide, by decide, by decide⟩
        rcases laidOut with ⟨room, -⟩ | ⟨-, refused⟩
        · have room := room none
          exact ⟨by omega, by omega, near⟩
        · cases laid.symm.trans refused
      obtain ⟨t, written⟩ := writeFile_of_writable version laid holds writable
      rw [Dictionary.size, written]
      exact .done writable
    · obtain ⟨t, refused⟩ := writeFile_of_large version holds.keys.atEnd (Nat.not_lt.mp near)
      rw [Dictionary.size, refused]
      exact .refused fun writable => near writable.valueTable

end Writing

/-! ### The file -/

/-- A region of a file that starts in its second part, or at the end of the first. -/
theorem regionIn_append {front back : List UInt8} (start count : Nat) :
    regionIn (front ++ back) (front.length + start) count = regionIn back start count := by
  rw [regionIn, List.drop_length_add_append, regionIn]

section Tables

variable {pairs : List (String × Value)}

theorem regionIn_keys (rest : List UInt8) {i : Nat} (inside : i < pairs.length) :
    regionIn (keyTableBytes pairs ++ rest) (offsetAt (keySizes pairs) i)
      ((Text.utf8 pairs[i].1).length + 1) = Text.utf8 pairs[i].1 ++ [0] := by
  have found := take_drop_flatMap (fun pair : String × Value => storedKey pair.1) pairs
    (List.replicate (aligned (keySizes pairs).sum - (keySizes pairs).sum) 0 ++ rest) inside
  rw [← keySizes_eq, length_storedKey, ← List.append_assoc] at found
  rw [keyTableBytes, padded_eq, List.length_flatMap, ← keySizes_eq]
  exact found

theorem regionIn_keyPadding (rest : List UInt8) :
    regionIn (keyTableBytes pairs ++ rest) (keySizes pairs).sum
      (aligned (keySizes pairs).sum - (keySizes pairs).sum) =
        List.replicate (aligned (keySizes pairs).sum - (keySizes pairs).sum) 0 := by
  have size : (pairs.flatMap fun pair => storedKey pair.1).length = (keySizes pairs).sum := by
    rw [List.length_flatMap, keySizes_eq]
  rw [keyTableBytes, padded_eq, List.append_assoc, size, regionIn, List.drop_left' size,
    List.take_left' List.length_replicate]

theorem regionIn_values {i : Nat} (inside : i < pairs.length) :
    regionIn (valueTableBytes pairs) (offsetAt (valueSizes pairs) i)
      (aligned pairs[i].2.exactSize) = pairs[i].2.stored ++
        List.replicate (aligned pairs[i].2.exactSize - pairs[i].2.exactSize) 0 := by
  have found := take_drop_flatMap (fun pair : String × Value => padded pair.2.stored) pairs []
    inside
  rw [← valueSizes_eq, List.append_nil, length_padded, padded_eq, pairs[i].2.length_stored] at found
  exact found

end Tables

theorem HoldsFile.laidOut {s : Stream} {version : UInt32} {pairs : List (String × Value)}
    {records : List Record} (h : HoldsFile s version pairs records) :
    LaidOut version pairs s.visible := by
  obtain ⟨header, found⟩ := h.fields
  have count : (headerIn s.visible).pairCount = pairs.length := by rw [header, headerOf_eq]
  have front : (frontBytes version pairs records).length = keyTableStart pairs := by
    rw [length_frontBytes version h.length_records, headerOf_eq]
  have behindKeys : (frontBytes version pairs records ++ keyTableBytes pairs).length =
      valueTableStart pairs := by
    rw [List.length_append, front, length_keyTableBytes, valueTableStart]
  have file : s.visible =
      frontBytes version pairs records ++ (keyTableBytes pairs ++ valueTableBytes pairs) :=
    h.visible
  have keyRegion (start count : Nat) : regionIn s.visible (keyTableStart pairs + start) count =
      regionIn (keyTableBytes pairs ++ valueTableBytes pairs) start count := by
    rw [file, ← front, regionIn_append]
  have valueRegion (start count : Nat) :
      regionIn s.visible (valueTableStart pairs + start) count =
        regionIn (valueTableBytes pairs) start count := by
    rw [file, ← List.append_assoc, ← behindKeys, regionIn_append]
  constructor
  · exact h.wellFormed.named
  · rw [header, headerOf_eq]
  · intro i inside
    have member := getElem?_layOut h.laid inside
    rw [← found, recordsIn, List.getElem?_map, count, List.getElem?_range inside] at member
    refine (Option.some.inj member).trans ?_
    rw [recordOf, pairs[i].2.length_stored, Nat.zero_add, Nat.zero_add]
    rfl
  · intro i inside
    rw [keyRegion, regionIn_keys _ inside]
  · rw [keyRegion, regionIn_keyPadding]
  · intro i inside
    rw [valueRegion, regionIn_values inside]
  · rw [file, ← List.append_assoc, List.length_append, behindKeys, length_valueTableBytes]

/--
A dictionary has a file exactly when every offset fits its field: the one of its last key, the end
of the values, and the start of their table. Otherwise the writer says that a number does not fit,
as long as vectors can hold the tables, as they can whenever memory holds the keys and the values.
The file has everything in its place, and ends with the values at a multiple of four.
-/
theorem encodeToBytes_places (version : UInt32) (d : Dictionary) :
    ((∃ file, encodeToBytes version d = .ok file) ↔ Writable d.pairs) ∧
    (¬Writable d.pairs → TablesFit d.pairs → encodeToBytes version d = .error .integerRange) ∧
    ∀ file, encodeToBytes version d = .ok file →
      LaidOut version d.pairs file ∧ Tiled d.pairs ∧ 4 ∣ file.length := by
  have outcome := encodeToBytes_outcome version d
  refine ⟨⟨?_, fun writable => ?_⟩, fun unwritable fit => ?_, fun file written => ?_⟩
  · rintro ⟨file, written⟩
    rw [written] at outcome
    cases outcome with
    | done writable => exact writable
  · generalize encodeToBytes version d = result at outcome
    cases outcome with
    | done => exact ⟨_, rfl⟩
    | refused unwritable => exact absurd writable unwritable
    | full crowded => exact absurd writable.tablesFit crowded
  · generalize encodeToBytes version d = result at outcome
    cases outcome with
    | done writable => exact absurd writable unwritable
    | refused => rfl
    | full crowded => exact absurd fit crowded
  · obtain ⟨records, holds⟩ := holdsFile_of_encodeToBytes written
    have laid : LaidOut version d.pairs file := holds.laidOut
    refine ⟨laid, tiled d.pairs, ?_⟩
    rw [laid.length, ← offsetAt_length]
    exact Nat.dvd_add (tiled d.pairs).table ((tiled d.pairs).starts _)

/-- A dictionary of one value of `count` bytes. -/
def blobSample (count : Nat) : Dictionary :=
  ⟨[("K", .binary (List.replicate count 0))], List.pairwise_singleton _ _⟩

theorem valueSizes_blobSample (count : Nat) :
    valueSizes (blobSample count).pairs = [aligned count] := by
  simp only [blobSample, valueSizes, Value.exactSize, List.map_cons, List.map_nil,
    List.length_replicate]

/-- A dictionary with a file, and one whose value is as long as the largest number of a field. -/
theorem encodeToBytes_places_filledSample :
    (∃ file, encodeToBytes defaultVersion filledSample = .ok file ∧ file.length = 60 ∧
      recordAt file 36 = ⟨2, 4, 2, 2, 4, 0⟩) ∧
    encodeToBytes defaultVersion (blobSample (2 ^ 32 - 1)) = .error .integerRange := by
  obtain ⟨accepts, -, places⟩ := encodeToBytes_places defaultVersion filledSample
  obtain ⟨-, refuses, -⟩ := encodeToBytes_places defaultVersion (blobSample (2 ^ 32 - 1))
  constructor
  · obtain ⟨file, written⟩ := accepts.mpr ⟨by decide +kernel, by decide +kernel, by decide +kernel⟩
    obtain ⟨laid, -⟩ := places file written
    have length := laid.length
    have second := laid.record 1 (by decide)
    refine ⟨file, written, ?_, ?_⟩
    · rw [length]
      decide +kernel
    · rw [show 36 = headerSize + recordSize * 1 from rfl, second]
      decide +kernel
  · refine refuses (fun writable => ?_) ⟨?_, ?_⟩
    · have values := writable.values
      rw [valueSizes_blobSample] at values
      revert values
      decide +kernel
    · rw [length_keyTableBytes]
      decide +kernel
    · rw [length_valueTableBytes, valueSizes_blobSample]
      decide +kernel

end PackageAssets.Psf
