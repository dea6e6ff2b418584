import PackageAssets.Deflate.Zlib
import PackageAssets.Proofs.Bytes.Stored
import PackageAssets.Proofs.Deflate.Bits
import PackageAssets.Proofs.Stream.Steps

/-!
# Stored blocks inflated

At the start of a byte a field of eight bits is that byte. A stored block
starts there, and ends there again, so that blocks written one after another
are read one after another and give the data back.
-/
namespace PackageAssets.Zlib

theorem storedBlocks_cons_cons (part next : List UInt8) (parts : List (List UInt8)) :
    storedBlocks (part :: next :: parts) =
      storedBlock false part ++ storedBlocks (next :: parts) := rfl

theorem length_storedBlock (last : Bool) (data : List UInt8) :
    (storedBlock last data).length = data.length + 5 := by
  simp only [storedBlock, List.cons_append, List.length_cons, List.length_append,
    ByteOrder.length_write]
  omega

theorem length_lt_storedBlocks (parts : List (List UInt8)) :
    parts.length < (storedBlocks parts).length := by
  induction parts with
  | nil => decide
  | cons part parts ih =>
    cases parts with
    | nil =>
      rw [storedBlocks, length_storedBlock]
      exact Nat.succ_lt_succ (Nat.succ_pos _)
    | cons next parts =>
      rw [storedBlocks_cons_cons, List.length_append, length_storedBlock, List.length_cons]
      omega

theorem adler_lt (data : List UInt8) : Adler32.ofBytes data < 256 ^ 4 := by
  have sums : ∀ start : Nat × Nat, start.1 < 65521 ∧ start.2 < 65521 →
      (data.foldl Adler32.step start).1 < 65521 ∧ (data.foldl Adler32.step start).2 < 65521 := by
    induction data with
    | nil => exact fun _ h => h
    | cons b rest ih =>
      intro start _
      exact ih _ ⟨Nat.mod_lt _ (by decide), Nat.mod_lt _ (by decide)⟩
  have := sums (1, 0) (by decide)
  unfold Adler32.ofBytes
  dsimp only
  omega

end PackageAssets.Zlib

namespace PackageAssets.Deflate

theorem field_pending (bits more : List Bool) (rest : List UInt8) :
    field bits.length ⟨bits ++ more, rest⟩ = .ok (bitsValue bits) ⟨more, rest⟩ := by
  induction bits with
  | nil => rfl
  | cons b bits ih =>
    have first : nextBit ⟨b :: bits ++ more, rest⟩ = .ok b ⟨bits ++ more, rest⟩ := rfl
    rw [List.length_cons, field, bind_of_ok first, bind_of_ok ih]
    rfl

theorem field_byte (b : UInt8) (rest : List UInt8) :
    field 8 ⟨[], b :: rest⟩ = .ok b.toNat ⟨[], rest⟩ := by
  have size : (byteBits b).length = 8 := rfl
  have value := bitsValue_byteBits b
  cases hbits : byteBits b with
  | nil =>
    rw [hbits] at size
    cases size
  | cons first bits =>
    rw [hbits] at size value
    have head : nextBit ⟨[], b :: rest⟩ = .ok first ⟨bits, rest⟩ := by
      simp only [nextBit, hbits]
    have tail := field_pending bits [] rest
    rw [List.append_nil, Nat.succ.inj size] at tail
    rw [field, bind_of_ok head, bind_of_ok tail, ← value]
    rfl

theorem field_add {m n low high : Nat} {s t u : BitSource} (first : field m s = .ok low t)
    (second : field n t = .ok high u) : field (m + n) s = .ok (low + 2 ^ m * high) u := by
  induction m generalizing s low with
  | zero =>
    cases first
    simpa using second
  | succ m ih =>
    rw [field] at first
    obtain ⟨b, v, hb, first⟩ := bind_eq_ok_iff.mp first
    obtain ⟨rest, w, hrest, done⟩ := bind_eq_ok_iff.mp first
    cases done
    rw [Nat.succ_add, field, bind_of_ok hb, bind_of_ok (ih hrest)]
    change EStateM.Result.ok _ _ = _
    congr 1
    rw [Nat.mul_add, Nat.pow_succ, Nat.mul_comm _ 2, Nat.mul_assoc, Nat.add_assoc]

theorem field_written {n : Nat} (fits : n < 65536) (rest : List UInt8) :
    field 16 ⟨[], ByteOrder.little.write 2 n ++ rest⟩ = .ok n ⟨[], rest⟩ := by
  have first := field_byte (UInt8.ofNat n) (UInt8.ofNat (n / 256) :: rest)
  have second := field_byte (UInt8.ofNat (n / 256)) rest
  have both := field_add first second
  have value : (UInt8.ofNat n).toNat + 2 ^ 8 * (UInt8.ofNat (n / 256)).toNat = n := by
    rw [UInt8.toNat_ofNat', UInt8.toNat_ofNat']
    omega
  rw [value] at both
  exact both

theorem storedBlock_written {data : List UInt8} (fits : data.length ≤ Zlib.largestStored)
    (out : Array UInt8) (pending : List Bool) (rest : List UInt8) :
    storedBlock out ⟨pending, ByteOrder.little.write 2 data.length ++
      (ByteOrder.little.write 2 (Zlib.largestStored - data.length) ++ (data ++ rest))⟩ =
      .ok (out ++ data.toArray) ⟨[], rest⟩ := by
  unfold Zlib.largestStored at *
  have length := field_written (n := data.length) (by omega)
    (ByteOrder.little.write 2 (65535 - data.length) ++ (data ++ rest))
  have complement := field_written (n := 65535 - data.length) (by omega) (data ++ rest)
  have whole : wholeBytes data.length ⟨[], data ++ rest⟩ = .ok data ⟨[], rest⟩ := by
    simp only [wholeBytes, List.take_left, List.drop_left, Nat.lt_irrefl, if_false]
  have aligned : align ⟨pending, ByteOrder.little.write 2 data.length ++
      (ByteOrder.little.write 2 (65535 - data.length) ++ (data ++ rest))⟩ =
      .ok () ⟨[], ByteOrder.little.write 2 data.length ++
        (ByteOrder.little.write 2 (65535 - data.length) ++ (data ++ rest))⟩ := rfl
  rw [storedBlock, bind_of_ok aligned, bind_of_ok length, bind_of_ok complement,
    if_neg (by omega)]
  exact (bind_of_ok whole).trans rfl

theorem block_stored {data : List UInt8} (fits : data.length ≤ Zlib.largestStored) (rounds : Nat)
    (last : Bool) (out : Array UInt8) (rest : List UInt8) :
    block rounds out ⟨[], Zlib.storedBlock last data ++ rest⟩ =
      .ok (last, out ++ data.toArray) ⟨[], rest⟩ := by
  have body : Zlib.storedBlock last data ++ rest = (if last then 1 else 0) ::
      (ByteOrder.little.write 2 data.length ++
        (ByteOrder.little.write 2 (Zlib.largestStored - data.length) ++ (data ++ rest))) := by
    simp only [Zlib.storedBlock, List.cons_append, List.append_assoc]
  have marked (more : List UInt8) : nextBit ⟨[], (if last then 1 else 0) :: more⟩ =
      .ok last ⟨List.replicate 7 false, more⟩ := by
    cases last <;> rfl
  have kind (more : List UInt8) : field 2 ⟨List.replicate 7 false, more⟩ =
      .ok 0 ⟨List.replicate 5 false, more⟩ := rfl
  rw [body, block, bind_of_ok (marked _), bind_of_ok (kind _)]
  exact (bind_of_ok (storedBlock_written fits out _ rest)).trans rfl

/-- Blocks written one after another add their data one after another. -/
theorem inflateBlocks_stored (rounds : Nat) {parts : List (List UInt8)}
    (fits : ∀ part ∈ parts, part.length ≤ Zlib.largestStored) {count : Nat}
    (enough : parts.length < count) (out : Array UInt8) (rest : List UInt8) :
    inflateBlocks rounds count out ⟨[], Zlib.storedBlocks parts ++ rest⟩ =
      .ok (out ++ parts.flatten.toArray) ⟨[], rest⟩ := by
  induction parts generalizing count out with
  | nil =>
    obtain ⟨count, rfl⟩ := Nat.exists_eq_add_one_of_ne_zero (Nat.ne_zero_of_lt enough)
    have empty : ([] : List UInt8).length ≤ Zlib.largestStored := Nat.zero_le _
    have hblock := block_stored empty rounds true out rest
    exact (bind_of_ok hblock).trans rfl
  | cons part parts ih =>
    obtain ⟨first, others⟩ := List.forall_mem_cons.mp fits
    obtain ⟨count, rfl⟩ := Nat.exists_eq_add_one_of_ne_zero (Nat.ne_zero_of_lt enough)
    cases parts with
    | nil =>
      have hblock := block_stored first rounds true out rest
      rw [List.flatten_cons, List.flatten_nil, List.append_nil]
      exact (bind_of_ok hblock).trans rfl
    | cons next parts =>
      have hblock := block_stored first rounds false out
        (Zlib.storedBlocks (next :: parts) ++ rest)
      have later := ih others (Nat.lt_of_succ_lt_succ enough) (out ++ part.toArray)
      have whole : out ++ (part :: next :: parts).flatten.toArray =
          out ++ part.toArray ++ (next :: parts).flatten.toArray := by
        simp [Array.append_assoc]
      rw [Zlib.storedBlocks_cons_cons, List.append_assoc, whole, ← later]
      exact bind_of_ok hblock

theorem inflate_stored {parts : List (List UInt8)}
    (fits : ∀ part ∈ parts, part.length ≤ Zlib.largestStored) (rest : List UInt8) :
    inflate (.ofBytes (Zlib.storedBlocks parts ++ rest)) =
      .ok parts.flatten.toArray ⟨[], rest⟩ := by
  have long := Zlib.length_lt_storedBlocks parts
  have enough : parts.length <
      ([] : List Bool).length + 8 * (Zlib.storedBlocks parts ++ rest).length + 1 := by
    rw [List.length_append]
    omega
  have read := inflateBlocks_stored
    (([] : List Bool).length + 8 * (Zlib.storedBlocks parts ++ rest).length + 1) fits enough #[]
    rest
  rw [Array.empty_append] at read
  exact read

end PackageAssets.Deflate

namespace PackageAssets.Zlib

theorem pair_append (a b : UInt8) (front back : List UInt8) :
    [a, b] ++ front ++ back = a :: b :: (front ++ back) := rfl

theorem inflate_parts (confirm : Bool) {parts : List (List UInt8)}
    (fits : ∀ part ∈ parts, part.length ≤ largestStored) :
    inflate confirm (0x78 :: 0x01 :: (storedBlocks parts ++
      ByteOrder.big.write 4 (Adler32.ofBytes parts.flatten))) = .ok parts.flatten := by
  have sum : (ByteOrder.big.write 4 (Adler32.ofBytes parts.flatten)).length = 4 :=
    ByteOrder.length_write _ _ _
  have long := length_lt_storedBlocks parts
  have confirmed : checksumOk (ByteOrder.big.write 4 (Adler32.ofBytes parts.flatten))
      parts.flatten = .ok () := by
    rw [checksumOk, sum, if_neg (Nat.lt_irrefl 4), List.take_of_length_le (Nat.le_of_eq sum),
      ByteOrder.read_write .big (adler_lt parts.flatten), if_pos rfl]
  have longer : ¬(0x78 :: 0x01 :: (storedBlocks parts ++
      ByteOrder.big.write 4 (Adler32.ofBytes parts.flatten))).length < shortest := by
    rw [List.length_cons, List.length_cons, List.length_append, sum, shortest]
    omega
  rw [inflate, if_neg longer]
  dsimp only
  rw [if_pos (by decide), Deflate.inflate_stored fits]
  dsimp only
  rw [confirmed]
  cases confirm <;> rfl

/-- What is stored is inflated to itself. -/
theorem inflate_store (confirm : Bool) (data : List UInt8) :
    inflate confirm (store data) = .ok data := by
  have fits : ∀ part ∈ blocks largestStored
      ((data.length + largestStored - 1) / largestStored) data, part.length ≤ largestStored := by
    intro part hpart
    rw [blocks_eq_map, List.mem_map] at hpart
    obtain ⟨i, -, rfl⟩ := hpart
    exact List.length_take_le _ _
  have inflated := inflate_parts confirm fits
  rw [flatten_blocks_ceil (by decide : 0 < largestStored)] at inflated
  rw [store, pair_append]
  exact inflated

end PackageAssets.Zlib
