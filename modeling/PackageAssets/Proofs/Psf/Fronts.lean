import Mathlib.Data.List.Infix
import PackageAssets.Proofs.Psf.Acceptance
import PackageAssets.Proofs.Psf.RoundTrip
import PackageAssets.Proofs.Stream.Fronts

/-!
# Written files cut short

The front of a file has the header and the records of the whole file, and the
values that it holds in full. A key is not known to be whole: it is text up to
a zero or to the end. But a written file has the zeros of all keys in front of
its value table, so where that table starts in the front, no key was cut.
-/
namespace PackageAssets.Psf

/-! ### The fields of a front -/

section Front

variable {part whole : List UInt8} (front : part <+: whole)

include front

theorem numberAt_of_front {offset width : Nat} (inside : offset + width ≤ part.length) :
    numberAt part offset width = numberAt whole offset width := by
  rw [List.prefix_iff_eq_take.mp front, numberAt_take _ inside]

theorem headerIn_of_front (long : headerSize ≤ part.length) : headerIn part = headerIn whole := by
  unfold headerSize at long
  simp only [headerIn, headerAt, magic, List.length_cons, List.length_nil]
  rw [numberAt_of_front front (by omega), numberAt_of_front front (by omega),
    numberAt_of_front front (by omega), numberAt_of_front front (by omega)]

theorem recordAt_of_front {offset : Nat} (inside : offset + recordSize ≤ part.length) :
    recordAt part offset = recordAt whole offset := by
  unfold recordSize at inside
  simp only [recordAt]
  rw [numberAt_of_front front (by omega), numberAt_of_front front (by omega),
    numberAt_of_front front (by omega), numberAt_of_front front (by omega),
    numberAt_of_front front (by omega), numberAt_of_front front (by omega)]

theorem recordsIn_of_front (headed : Headed part) : recordsIn part = recordsIn whole := by
  rw [recordsIn, recordsIn, ← headerIn_of_front front headed.long]
  apply List.map_congr_left
  intro i member
  have inside : recordSize * i + recordSize ≤ recordSize * (headerIn part).pairCount :=
    Nat.mul_le_mul_left recordSize (List.mem_range.mp member)
  have counted := headed.counted
  exact recordAt_of_front front (by omega)

/-- A key that ends in the front ends there in the whole file. -/
theorem keyIn_of_front {record : Record} (long : headerSize ≤ part.length)
    (ends : 0 ∈ part.drop ((headerIn part).keyTable + record.keyOffset)) :
    keyIn part record = keyIn whole record := by
  obtain ⟨rest, known⟩ := front.drop ((headerIn part).keyTable + record.keyOffset)
  have short : (Text.untilZero (part.drop ((headerIn part).keyTable + record.keyOffset))).length ≠
      (part.drop ((headerIn part).keyTable + record.keyOffset)).length := by
    intro full
    have all := (List.takeWhile_prefix _).eq_of_length full
    rw [← all] at ends
    exact absurd (List.all_eq_true.mp List.all_takeWhile 0 ends) (by decide)
  rw [keyIn, keyIn, ← headerIn_of_front front long, ← known, Stream.untilZero_split,
    if_neg short]

theorem valueIn_of_front {record : Record} (wellFormed : WellFormed part)
    (within : record.Within part) : valueIn part record = valueIn whole record := by
  have table := wellFormed.valueTable
  have inside := within.value
  rw [valueIn, valueIn, storedIn, storedIn, ← headerIn_of_front front wellFormed.long]
  congr 1
  obtain ⟨rest, known⟩ := front.drop ((headerIn part).valueTable + record.valueOffset)
  rw [← known, List.take_append_of_le_length]
  rw [List.length_drop]
  omega

/-- A front that makes sense has the pairs of the whole file, if no key was cut. -/
theorem pairsIn_of_front (wellFormed : WellFormed part)
    (ends : ∀ record ∈ recordsIn part,
      0 ∈ part.drop ((headerIn part).keyTable + record.keyOffset)) :
    pairsIn part = pairsIn whole := by
  rw [pairsIn, pairsIn, ← recordsIn_of_front front wellFormed.toHeaded]
  apply List.map_congr_left
  intro record member
  exact Prod.ext (keyIn_of_front front wellFormed.long (ends record member))
    (valueIn_of_front front wellFormed (wellFormed.records record member))

/-- No front of a PSF file is taken for another kind of file. -/
theorem refusal_of_front (named : magic <+: whole) : refusal part = .truncated := by
  apply if_neg
  rintro ⟨long, foreign⟩
  exact foreign (List.prefix_of_prefix_length_le named front long)

end Front

/-! ### Keys of a written file -/

/-- Every key that was laid out ends in the key table. -/
theorem key_ends_of_layOut {keyOffset valueOffset : Nat} {pairs : List (String × Value)}
    {records : List Record} (laid : layOut keyOffset valueOffset pairs = .ok records)
    (before : List UInt8) {after : List UInt8} (place : keyOffset = before.length) :
    ∀ record ∈ records, 0 ∈
      (before ++ (pairs.flatMap (fun pair => storedKey pair.1) ++ after)).drop
        record.keyOffset := by
  induction pairs generalizing keyOffset valueOffset records before with
  | nil =>
    cases laid
    simp
  | cons pair pairs ih =>
    obtain ⟨key, value⟩ := pair
    obtain ⟨others, rfl, -, -, later⟩ := layOut_cons_eq_ok laid
    rw [List.flatMap_cons, List.append_assoc]
    refine List.forall_mem_cons.mpr ⟨?_, ?_⟩
    · change 0 ∈ List.drop keyOffset _
      rw [place, List.drop_left, storedKey]
      simp
    · have next : keyOffset + (storedKey key).length = (before ++ storedKey key).length := by
        rw [place, List.length_append]
      rw [← List.append_assoc]
      exact ih later _ next

namespace HoldsFile

variable {s : Stream} {version : UInt32} {pairs : List (String × Value)} {records : List Record}

theorem wellFormed (h : HoldsFile s version pairs records) : WellFormed s.visible := by
  obtain ⟨after, read⟩ := h.decodePairs_eq
  rcases decodePairs_cases (over_start h.sound) with ⟨wellFormed, -⟩ | ⟨-, e, t, refused, -⟩
  · exact wellFormed
  · rw [read] at refused
    cases refused

/-- What the fields of a written file say is what was laid out. -/
theorem fields (h : HoldsFile s version pairs records) :
    headerIn s.visible = headerOf version pairs ∧ recordsIn s.visible = records := by
  obtain ⟨notes, read⟩ := h.decodeHeaders_eq
  rcases decodeHeaders_cases (over_start h.sound) with ⟨-, after, again, -, found⟩ | ⟨other, -⟩
  · rw [read] at again
    cases again
    injection found with header records
    exact ⟨(Option.some.inj header).symm, records.symm⟩
  · exact absurd h.wellFormed.toHeaded other

/-- The front of a written file that reaches its value table has the ends of all keys. -/
theorem key_ends (h : HoldsFile s version pairs records) {part : List UInt8}
    (front : part <+: s.visible) (long : (headerOf version pairs).valueTable ≤ part.length) :
    ∀ record ∈ records, 0 ∈ part.drop ((headerOf version pairs).keyTable + record.keyOffset) := by
  have size := length_frontBytes version h.length_records
  have known : s.visible =
      (frontBytes version pairs records ++ keyTableBytes pairs) ++ valueTableBytes pairs := by
    rw [h.visible, fileBytes, List.append_assoc]
  have reached : frontBytes version pairs records ++ keyTableBytes pairs <+: part := by
    refine List.prefix_of_prefix_length_le ⟨_, known.symm⟩ front ?_
    rw [List.length_append, size]
    exact long
  obtain ⟨rest, rfl⟩ := reached
  intro record member
  rw [List.append_assoc, ← List.drop_drop, ← size, List.drop_left, keyTableBytes, padded_eq,
    List.append_assoc]
  exact key_ends_of_layOut h.laid [] rfl record member

/-- The front of a written file has its pairs, or it makes no sense. -/
theorem pairsIn_front (h : HoldsFile s version pairs records) {part : List UInt8}
    (front : part <+: s.visible) (wellFormed : WellFormed part) :
    pairsIn part = pairsIn s.visible := by
  obtain ⟨header, laid⟩ := h.fields
  have long := wellFormed.valueTable
  rw [headerIn_of_front front wellFormed.long, header] at long
  apply pairsIn_of_front front wellFormed
  rw [recordsIn_of_front front wellFormed.toHeaded, headerIn_of_front front wellFormed.long,
    header, laid]
  exact h.key_ends front long

end HoldsFile

/--
What is decoded of the front of a written file is what is decoded of all of it, or the failure says
that the file is truncated. It is never another dictionary, and no failure of another kind.
-/
theorem decode_front_of_encodeToBytes {s t : Stream} (front : Stream.Front s t) {version : UInt32}
    {d : Dictionary} (written : encodeToBytes version d = .ok s.visible) :
    ∃ decoded, outcomeOf (decode (Decoder.start s)) = .ok decoded ∧
      (outcomeOf (decode (Decoder.start t)) = .ok decoded ∨
        ∃ e, outcomeOf (decode (Decoder.start t)) = .error e ∧ e.kind = .truncated) := by
  obtain ⟨-, records, -, laid, -, fits, visible, -⟩ := encodeToBytes_eq_ok written
  have file : HoldsFile s version d.pairs records := ⟨front.whole, laid, fits, visible⟩
  have wellFormed := file.wellFormed
  rcases decode_cases (over_start front.whole) with ⟨-, after, whole, -⟩ | ⟨other, -⟩
  · refine ⟨.ofPairs (pairsIn s.visible), congrArg outcomeOf whole, ?_⟩
    rcases decode_cases (over_start front.part) with
      ⟨sense, t', part, -⟩ | ⟨-, e, t', part, -, kind⟩
    · rw [file.pairsIn_front front.visible sense] at part
      exact .inl (congrArg outcomeOf part)
    · exact .inr ⟨e, congrArg outcomeOf part,
        kind.trans (refusal_of_front front.visible wellFormed.named)⟩
  · exact absurd wellFormed other

/-- A dictionary of an empty value and of a text. -/
def filledSample : Dictionary := ⟨[("A", .unit), ("B", .text "x")], by decide⟩

/-- The file of `filledSample`, in which two bytes fill up the value table. -/
def filledFile : List UInt8 :=
  magic ++ [1, 1, 0, 0] ++ [52, 0, 0, 0] ++ [56, 0, 0, 0] ++ [2, 0, 0, 0] ++
    [0, 0, 4, 1, 0, 0, 0, 0, 0, 0, 0, 0, 0, 0, 0, 0] ++
    [2, 0, 4, 2, 2, 0, 0, 0, 4, 0, 0, 0, 0, 0, 0, 0] ++ [0x41, 0, 0x42, 0] ++ [0x78, 0, 0, 0]

theorem decode_front_of_encodeToBytes_filledSample :
    let decoded := fun n => outcomeOf (decode (Decoder.start (.ofBytes (filledFile.take n))))
    encodeToBytes defaultVersion filledSample = .ok filledFile ∧
      decoded 60 = .ok filledSample ∧ decoded 58 = .ok filledSample ∧
      decoded 57 = .error (.valueOutOfRange 0 2 1) ∧
      ∀ n, decoded n = .ok filledSample ∨ ∃ e, decoded n = .error e ∧ e.kind = .truncated := by
  intro decoded
  have written : encodeToBytes defaultVersion filledSample = .ok filledFile := by decide +kernel
  have whole : decoded 60 = .ok filledSample := by decide +kernel
  refine ⟨written, whole, by decide +kernel, by decide +kernel, fun n => ?_⟩
  have front := Stream.front_ofBytes (by decide) (filledFile.take_prefix n)
  obtain ⟨found, read, cut⟩ := decode_front_of_encodeToBytes front written
  cases read.symm.trans whole
  exact cut

end PackageAssets.Psf
