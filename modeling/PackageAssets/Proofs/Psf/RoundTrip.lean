import PackageAssets.Proofs.Psf.Lookup
import PackageAssets.Proofs.Psf.WrittenFile

/-!
# Written and read back

A dictionary that is written is read back, except that keys and texts end
before their first NUL. When that makes keys equal, the greatest of them is
the one that counts.
-/
namespace PackageAssets.Psf

/-- A pair with no NUL in its key or its text. -/
def NulFree (pair : String × Value) : Prop :=
  '\x00' ∉ pair.1.toList ∧ ∀ s, pair.2 = .text s → '\x00' ∉ s.toList

theorem cutPair_eq_self {pair : String × Value} (plain : NulFree pair) : cutPair pair = pair := by
  obtain ⟨key, value⟩ := pair
  obtain ⟨hkey, hvalue⟩ := plain
  have same : value.cut = value := by
    cases value with
    | text s => exact congrArg Value.text (Text.beforeNul_eq_self (hvalue s rfl))
    | _ => rfl
  exact Prod.ext (Text.beforeNul_eq_self hkey) same

/-- What is found in the dictionary made of the pairs as they come back. -/
theorem get?_ofPairs_cut (d : Dictionary) (key : String) (v : Value) :
    (Dictionary.ofPairs (d.pairs.map cutPair)).get? key = some v ↔
      ∃ p ∈ d.pairs, cutPair p = (key, v) ∧
        ∀ q ∈ d.pairs, (cutPair q).1 = key → ¬KeyLt p.1 q.1 := by
  rw [Dictionary.get?_ofPairs, ← List.map_reverse,
    lookup_map_descending (List.pairwise_reverse.mpr d.ascending)]
  simp only [List.mem_reverse]

/--
What was written of a dictionary is read back: the version and a record for each pair, the pairs
in their order with keys and texts cut at NUL, and of them the dictionary.
-/
theorem decode_encodeToBytes {version : UInt32} {d : Dictionary} {bytes : List UInt8}
    (written : encodeToBytes version d = .ok bytes) :
    (∃ after header, decodeHeaders (Decoder.start (.ofBytes bytes)) = .ok () after ∧
      after.found.header = some header ∧ header.version = version.toNat ∧
      header.pairCount = d.size ∧ after.found.records.length = d.size) ∧
    (∃ after, decodePairs (Decoder.start (.ofBytes bytes)) = .ok (d.pairs.map cutPair) after) ∧
    ∃ decoded after, decode (Decoder.start (.ofBytes bytes)) = .ok decoded after ∧
      (∀ key v, decoded.get? key = some v ↔ ∃ p ∈ d.pairs, cutPair p = (key, v) ∧
        ∀ q ∈ d.pairs, (cutPair q).1 = key → ¬KeyLt p.1 q.1) ∧
      ((∀ p ∈ d.pairs, NulFree p) → decoded = d) := by
  obtain ⟨records, file⟩ := holdsFile_of_encodeToBytes written
  obtain ⟨notes, hheaders⟩ := file.decodeHeaders_eq
  obtain ⟨after, hpairs⟩ := file.decodePairs_eq
  obtain ⟨final, hdecode⟩ := decode_of_decodePairs hpairs
  refine ⟨⟨_, _, hheaders, rfl, rfl, rfl, file.length_records⟩, ⟨after, hpairs⟩,
    _, final, hdecode, get?_ofPairs_cut d, ?_⟩
  intro plain
  have same : d.pairs.map cutPair = d.pairs :=
    (List.map_congr_left fun p hp => cutPair_eq_self (plain p hp)).trans (List.map_id' _)
  rw [same, Dictionary.ofPairs_pairs]

/-- Two keys that differ only behind a NUL, and a text with one. -/
def nulSample : Dictionary :=
  ⟨[("A\x00a", .text "x\x00y"), ("A\x00b", .int (-2))], by decide⟩

theorem decode_encodeToBytes_nulSample :
    ∃ bytes, encodeToBytes defaultVersion nulSample = .ok bytes ∧
      (∃ after, decodePairs (Decoder.start (.ofBytes bytes)) =
        .ok [("A", .text "x"), ("A", .int (-2))] after) ∧
      ∃ decoded after, decode (Decoder.start (.ofBytes bytes)) = .ok decoded after ∧
        decoded.get? "A" = some (.int (-2)) := by
  have succeeds : ∃ bytes, encodeToBytes defaultVersion nulSample = .ok bytes := by
    have done : (encodeToBytes defaultVersion nulSample).isOk := by decide +kernel
    cases written : encodeToBytes defaultVersion nulSample with
    | ok bytes => exact ⟨bytes, rfl⟩
    | error e =>
      rw [written] at done
      cases done
  obtain ⟨bytes, written⟩ := succeeds
  obtain ⟨-, ⟨after, hpairs⟩, decoded, final, hdecode, found, -⟩ := decode_encodeToBytes written
  have cut : nulSample.pairs.map cutPair = [("A", .text "x"), ("A", .int (-2))] := by decide
  rw [cut] at hpairs
  refine ⟨bytes, written, ⟨after, hpairs⟩, decoded, final, hdecode, ?_⟩
  exact (found "A" _).mpr ⟨("A\x00b", .int (-2)), by decide, by decide, by decide⟩

end PackageAssets.Psf
