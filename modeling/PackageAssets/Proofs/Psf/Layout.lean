import PackageAssets.Proofs.Bytes.Stored
import PackageAssets.Psf.Encoder

/-!
# The layout of a file

Keys stand one behind the other, each with a zero byte, and values are filled up to
the alignment. From where the first pair starts this says where every other one
does: laying out pairs gives a record for each, whose fields fit their widths. A file
is the header, the records and the two tables in a row.
-/
namespace PackageAssets.Psf

/-- `n` rounded up to the alignment of tables and values. -/
def aligned (n : Nat) : Nat := (n + tableAlignment - 1) / tableAlignment * tableAlignment

def padded (bytes : List UInt8) : List UInt8 := bytes.rightpad (aligned bytes.length) 0

/-- A key as it stands in the key table. -/
def storedKey (key : String) : List UInt8 := Text.utf8 key ++ [0]

def keyTableBytes (pairs : List (String × Value)) : List UInt8 :=
  padded (pairs.flatMap fun pair => storedKey pair.1)

def valueTableBytes (pairs : List (String × Value)) : List UInt8 :=
  pairs.flatMap fun pair => padded pair.2.stored

/-- The record of a pair whose key and value stand at these offsets. -/
def recordOf (keyOffset valueOffset : Nat) (value : Value) : Record :=
  let size := value.stored.length
  ⟨keyOffset, formatNumber.toNat, value.typeNumber, size, aligned size, valueOffset⟩

/-- Records of pairs whose first key and value stand at these offsets. -/
def layOut : (keyOffset valueOffset : Nat) → List (String × Value) → Except IoError (List Record)
  | _, _, [] => .ok []
  | keyOffset, valueOffset, (key, value) :: rest =>
    let record := recordOf keyOffset valueOffset value
    let nextValue := valueOffset + record.paddedSize
    if 2 ^ 16 ≤ keyOffset ∨ 2 ^ 32 ≤ nextValue then .error .integerRange
    else (layOut (keyOffset + (storedKey key).length) nextValue rest).map (record :: ·)

def recordBytes (r : Record) : List UInt8 :=
  ByteOrder.little.write 2 r.keyOffset ++ [UInt8.ofNat r.format, UInt8.ofNat r.valueType] ++
    ByteOrder.little.write 4 r.valueSize ++ ByteOrder.little.write 4 r.paddedSize ++
    ByteOrder.little.write 4 r.valueOffset

theorem le_aligned (n : Nat) : n ≤ aligned n := by
  unfold aligned tableAlignment
  omega

theorem padded_eq (bytes : List UInt8) :
    padded bytes = bytes ++ List.replicate (aligned bytes.length - bytes.length) 0 := rfl

theorem length_padded (bytes : List UInt8) : (padded bytes).length = aligned bytes.length := by
  have := le_aligned bytes.length
  rw [padded_eq, List.length_append, List.length_replicate]
  omega

/-- A record whose fields fit where they are stored. -/
structure Record.Fits (r : Record) : Prop where
  keyOffset : r.keyOffset < 2 ^ 16
  format : r.format < 2 ^ 8
  valueType : r.valueType < 2 ^ 8
  valueSize : r.valueSize < 2 ^ 32
  paddedSize : r.paddedSize < 2 ^ 32
  valueOffset : r.valueOffset < 2 ^ 32

theorem length_recordBytes (r : Record) : (recordBytes r).length = recordSize := by
  simp only [recordBytes, List.length_append, ByteOrder.length_write, List.length_cons,
    List.length_nil]
  rfl

theorem length_flatMap_recordBytes (records : List Record) :
    (records.flatMap recordBytes).length = recordSize * records.length :=
  length_flatMap_of_sized length_recordBytes records

section LayOut

variable {keyOffset valueOffset : Nat} {key : String} {value : Value}
  {pairs : List (String × Value)} {records : List Record}

theorem layOut_cons_of_large
    (large : 2 ^ 16 ≤ keyOffset ∨ 2 ^ 32 ≤ valueOffset + aligned value.stored.length) :
    layOut keyOffset valueOffset ((key, value) :: pairs) = .error .integerRange := if_pos large

theorem layOut_cons_of_small (near : keyOffset < 2 ^ 16)
    (small : valueOffset + aligned value.stored.length < 2 ^ 32) :
    layOut keyOffset valueOffset ((key, value) :: pairs) =
      (layOut (keyOffset + (storedKey key).length) (valueOffset + aligned value.stored.length)
        pairs).map (recordOf keyOffset valueOffset value :: ·) :=
  if_neg (not_or.mpr ⟨Nat.not_le.mpr near, Nat.not_le.mpr small⟩)

/-- What laying out does with the first pair. -/
theorem layOut_cons_eq_ok
    (laid : layOut keyOffset valueOffset ((key, value) :: pairs) = .ok records) :
    ∃ others, records = recordOf keyOffset valueOffset value :: others ∧
      keyOffset < 2 ^ 16 ∧ valueOffset + aligned value.stored.length < 2 ^ 32 ∧
      layOut (keyOffset + (storedKey key).length) (valueOffset + aligned value.stored.length)
        pairs = .ok others := by
  by_cases large : 2 ^ 16 ≤ keyOffset ∨ 2 ^ 32 ≤ valueOffset + aligned value.stored.length
  · rw [layOut_cons_of_large large] at laid
    cases laid
  rw [not_or, Nat.not_le, Nat.not_le] at large
  rw [layOut_cons_of_small large.1 large.2] at laid
  cases later : layOut (keyOffset + (storedKey key).length)
      (valueOffset + aligned value.stored.length) pairs with
  | error e =>
    rw [later] at laid
    cases laid
  | ok others =>
    rw [later] at laid
    cases laid
    exact ⟨others, rfl, large.1, large.2, rfl⟩

theorem fits_recordOf (key : keyOffset < 2 ^ 16)
    (size : valueOffset + aligned value.stored.length < 2 ^ 32) :
    (recordOf keyOffset valueOffset value).Fits := by
  have := le_aligned value.stored.length
  refine ⟨key, ?_, ?_, ?_, ?_, ?_⟩
  · change formatNumber.toNat < 2 ^ 8
    decide
  · change value.typeNumber < 2 ^ 8
    cases value <;> simp [Value.typeNumber]
  · change value.stored.length < 2 ^ 32
    omega
  · change aligned value.stored.length < 2 ^ 32
    omega
  · change valueOffset < 2 ^ 32
    omega

theorem fits_layOut (laid : layOut keyOffset valueOffset pairs = .ok records) :
    ∀ r ∈ records, r.Fits := by
  induction pairs generalizing keyOffset valueOffset records with
  | nil =>
    cases laid
    simp
  | cons pair pairs ih =>
    obtain ⟨others, rfl, hkey, hsize, later⟩ := layOut_cons_eq_ok laid
    exact List.forall_mem_cons.mpr ⟨fits_recordOf hkey hsize, ih later⟩

theorem length_layOut (laid : layOut keyOffset valueOffset pairs = .ok records) :
    records.length = pairs.length := by
  induction pairs generalizing keyOffset valueOffset records with
  | nil =>
    cases laid
    rfl
  | cons pair pairs ih =>
    obtain ⟨others, rfl, -, -, later⟩ := layOut_cons_eq_ok laid
    exact congrArg (· + 1) (ih later)

end LayOut

/-! ### The file -/

/-- The header of a file with these pairs. -/
def headerOf (version : UInt32) (pairs : List (String × Value)) : Header :=
  let keyTable := headerSize + recordSize * pairs.length
  ⟨version.toNat, keyTable, keyTable + (keyTableBytes pairs).length, pairs.length⟩

/-- A header whose fields fit where they are stored. -/
structure Header.Fits (h : Header) : Prop where
  version : h.version < 2 ^ 32
  keyTable : h.keyTable < 2 ^ 32
  valueTable : h.valueTable < 2 ^ 32
  pairCount : h.pairCount < 2 ^ 32

def headerBytes (h : Header) : List UInt8 :=
  ByteOrder.little.write 4 h.version ++ (ByteOrder.little.write 4 h.keyTable ++
    (ByteOrder.little.write 4 h.valueTable ++ ByteOrder.little.write 4 h.pairCount))

/-- Magic bytes, header and records, in front of the tables. -/
def frontBytes (version : UInt32) (pairs : List (String × Value)) (records : List Record) :
    List UInt8 :=
  magic ++ (headerBytes (headerOf version pairs) ++ records.flatMap recordBytes)

def fileBytes (version : UInt32) (pairs : List (String × Value)) (records : List Record) :
    List UInt8 :=
  frontBytes version pairs records ++ (keyTableBytes pairs ++ valueTableBytes pairs)

theorem length_headerBytes (h : Header) : (headerBytes h).length = 16 := by
  simp only [headerBytes, List.length_append, ByteOrder.length_write]

theorem length_frontBytes (version : UInt32) {pairs : List (String × Value)}
    {records : List Record} (all : records.length = pairs.length) :
    (frontBytes version pairs records).length = (headerOf version pairs).keyTable := by
  rw [frontBytes, List.length_append, List.length_append, length_headerBytes,
    length_flatMap_recordBytes, all, ← Nat.add_assoc]
  rfl

end PackageAssets.Psf
