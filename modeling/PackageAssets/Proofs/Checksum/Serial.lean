import PackageAssets.Checksum.Crc32
import PackageAssets.Proofs.Deflate.Bits

/-!
# CRC-32 bit by bit

The table takes a byte as eight bits would be taken, from its low end. Bit by
bit the register is linear, and no shift loses anything: what two messages
differ in is what their checksums differ by, and a difference that is there
once is there for good. Up to 32 bits fit the register side by side, so that a
burst of so many cannot cancel itself.
-/
namespace PackageAssets.Crc32

open Deflate

/-- The register after one more bit. -/
def feedBit (c : UInt32) (b : Bool) : UInt32 := shift (c ^^^ b.toUInt32)

/-- The register after more bits. -/
def feed (c : UInt32) (bits : List Bool) : UInt32 := bits.foldl feedBit c

/-- Bits as a register holds them, the first one at its low end. -/
def word (bits : List Bool) : UInt32 := UInt32.ofNat (bitsValue bits)

/-! ### Shifts -/

section Shift

theorem low_bit (c : UInt32) : c &&& 1 = 1 ↔ c.toNat % 2 = 1 := by
  rw [← UInt32.toNat_inj, UInt32.toNat_and]
  exact Iff.of_eq (congrArg (· = 1) (Nat.and_one_is_mod c.toNat))

theorem shift_eq (c : UInt32) :
    shift c = (c >>> 1) ^^^ if c.toNat % 2 = 1 then polynomial else 0 := by
  rw [shift]
  by_cases odd : c.toNat % 2 = 1
  · rw [if_pos odd, if_pos ((low_bit c).mpr odd), UInt32.xor_comm]
  · rw [if_neg odd, if_neg fun low => odd ((low_bit c).mp low), UInt32.xor_zero]

theorem shift_xor (a b : UInt32) : shift (a ^^^ b) = shift a ^^^ shift b := by
  have parity : (a ^^^ b).toNat % 2 = (a.toNat % 2 + b.toNat % 2) % 2 := by
    rw [UInt32.toNat_xor, ← Nat.and_one_is_mod, Nat.and_xor_distrib_right, Nat.and_one_is_mod,
      Nat.and_one_is_mod]
    rcases Nat.mod_two_eq_zero_or_one a.toNat with ha | ha <;>
      rcases Nat.mod_two_eq_zero_or_one b.toNat with hb | hb <;> rw [ha, hb] <;> rfl
  rw [shift_eq, shift_eq, shift_eq, UInt32.shiftRight_xor, parity]
  have regroup (m n : UInt32) : a >>> 1 ^^^ b >>> 1 ^^^ (m ^^^ n) =
      a >>> 1 ^^^ m ^^^ (b >>> 1 ^^^ n) := by
    rw [UInt32.xor_assoc, UInt32.xor_assoc, ← UInt32.xor_assoc (b >>> 1),
      ← UInt32.xor_assoc m, UInt32.xor_comm m]
  rw [← regroup]
  congr 1
  rcases Nat.mod_two_eq_zero_or_one a.toNat with ha | ha <;>
    rcases Nat.mod_two_eq_zero_or_one b.toNat with hb | hb <;> rw [ha, hb] <;> rfl

theorem eq_zero_of_shift {c : UInt32} (lost : shift c = 0) : c = 0 := by
  rw [shift_eq, UInt32.xor_eq_zero_iff, ← UInt32.toNat_inj, UInt32.toNat_shiftRight] at lost
  have half : c.toNat >>> ((1 : UInt32).toNat % 32) = c.toNat / 2 := rfl
  have small := c.toNat_lt
  rw [half] at lost
  apply UInt32.toNat_inj.mp
  by_cases odd : c.toNat % 2 = 1
  · rw [if_pos odd] at lost
    have top : polynomial.toNat = 0xEDB88320 := rfl
    omega
  · rw [if_neg odd] at lost
    have zero : (0 : UInt32).toNat = 0 := rfl
    omega

theorem shifts_xor (n : Nat) (a b : UInt32) : shifts n (a ^^^ b) = shifts n a ^^^ shifts n b := by
  induction n generalizing a b with
  | zero => rfl
  | succ n ih => rw [shifts, shift_xor, ih]; rfl

theorem eq_zero_of_shifts {n : Nat} {c : UInt32} (lost : shifts n c = 0) : c = 0 := by
  induction n generalizing c with
  | zero => exact lost
  | succ n ih => exact eq_zero_of_shift (ih lost)

/-- A register with a clear low end only moves down. -/
theorem shift_double {n : Nat} (small : 2 * n < 2 ^ 32) :
    shift (UInt32.ofNat (2 * n)) = UInt32.ofNat n := by
  have fits : n < 2 ^ 32 := by omega
  have value : (UInt32.ofNat (2 * n)).toNat = 2 * n := UInt32.toNat_ofNat_of_lt' small
  have even : ¬(UInt32.ofNat (2 * n)).toNat % 2 = 1 := by omega
  rw [shift_eq, if_neg even, UInt32.xor_zero, ← UInt32.toNat_inj, UInt32.toNat_shiftRight, value,
    UInt32.toNat_ofNat_of_lt' fits]
  change 2 * n / 2 = n
  omega

theorem shifts_scaled {k n : Nat} (small : 2 ^ k * n < 2 ^ 32) :
    shifts k (UInt32.ofNat (2 ^ k * n)) = UInt32.ofNat n := by
  induction k with
  | zero => rw [Nat.pow_zero, Nat.one_mul]; rfl
  | succ k ih =>
    rw [Nat.pow_succ', Nat.mul_assoc] at small ⊢
    rw [shifts, shift_double small]
    exact ih (by omega)

end Shift

/-! ### Bits and bytes -/

/-- What stands side by side is added without a carry. -/
theorem two_pow_mul_add_eq_xor {width low : Nat} (fits : low < 2 ^ width) (high : Nat) :
    2 ^ width * high + low = 2 ^ width * high ^^^ low := by
  apply Nat.eq_of_testBit_eq
  intro i
  rw [Nat.testBit_two_pow_mul_add high fits, Nat.testBit_xor, Nat.testBit_two_pow_mul]
  by_cases below : i < width
  · simp [below, Nat.not_le.mpr below]
  · have above : low.testBit i = false :=
      Nat.testBit_lt_two_pow (Nat.lt_of_lt_of_le fits (Nat.pow_le_pow_right (by decide) (by omega)))
    simp [below, above, Nat.not_lt.mp below]

theorem word_cons (b : Bool) (bits : List Bool) :
    word (b :: bits) = b.toUInt32 ^^^ UInt32.ofNat (2 * bitsValue bits) := by
  have single : b.toNat < 2 ^ 1 := b.toNat_lt
  have placed : b.toNat + 2 * bitsValue bits = (2 * bitsValue bits) ^^^ b.toNat :=
    (Nat.add_comm _ _).trans (two_pow_mul_add_eq_xor single (bitsValue bits))
  have low : UInt32.ofNat b.toNat = b.toUInt32 := by cases b <;> rfl
  rw [word, bitsValue, placed, UInt32.ofNat_xor, low, UInt32.xor_comm]

/-- Bits that fit the register may be put there at once and shifted afterwards. -/
theorem feed_eq_shifts {bits : List Bool} (fits : bits.length ≤ 32) (c : UInt32) :
    feed c bits = shifts bits.length (c ^^^ word bits) := by
  induction bits generalizing c with
  | nil => exact (UInt32.xor_zero).symm
  | cons b bits ih =>
    rw [List.length_cons] at fits
    have small : 2 * bitsValue bits < 2 ^ 32 := by
      have below := bitsValue_lt bits
      have room : 2 ^ bits.length ≤ 2 ^ 31 := Nat.pow_le_pow_right (by decide) (by omega)
      omega
    have moved : shift (UInt32.ofNat (2 * bitsValue bits)) = word bits := shift_double small
    have rest := ih (by omega) (feedBit c b)
    rw [feedBit, ← moved, ← shift_xor, UInt32.xor_assoc, ← word_cons] at rest
    exact rest

theorem word_byteBits (b : UInt8) : word (byteBits b) = b.toUInt32 := by
  rw [word, bitsValue_byteBits, ← UInt32.toNat_inj, UInt8.toNat_toUInt32]
  exact UInt32.toNat_ofNat_of_lt' (Nat.lt_trans b.toNat_lt (by decide))

theorem low_byte (x : UInt32) : (x &&& 0xFF).toNat = x.toNat % 2 ^ 8 :=
  (UInt32.toNat_and x 0xFF).trans (Nat.and_two_pow_sub_one_eq_mod x.toNat 8)

theorem toNat_shiftRight_eight (x : UInt32) : (x >>> 8).toNat = x.toNat / 2 ^ 8 :=
  (UInt32.toNat_shiftRight x 8).trans (Nat.shiftRight_eq_div_pow x.toNat 8)

theorem table_low (x : UInt32) : table.getD (x &&& 0xFF).toNat 0 = shifts 8 (x &&& 0xFF) := by
  have small : (x &&& 0xFF).toNat < 256 := by
    rw [low_byte]
    exact Nat.mod_lt _ (by decide)
  have inside : (x &&& 0xFF).toNat < table.size := by rwa [table, Array.size_ofFn]
  have entry : table[(x &&& 0xFF).toNat] = shifts 8 (UInt32.ofNat (x &&& 0xFF).toNat) :=
    Array.getElem_ofFn ..
  rw [UInt32.ofNat_toNat] at entry
  exact (Array.getElem_eq_getD 0).symm.trans entry

/-- Eight shifts: those of the low byte, and the other bytes moved down. -/
theorem shifts_eight (x : UInt32) : shifts 8 x = shifts 8 (x &&& 0xFF) ^^^ (x >>> 8) := by
  have bound := x.toNat_lt
  have top : UInt32.ofNat (x.toNat / 2 ^ 8) = x >>> 8 := by
    rw [← UInt32.toNat_inj, toNat_shiftRight_eight]
    exact UInt32.toNat_ofNat_of_lt' (Nat.lt_of_le_of_lt (Nat.div_le_self _ _) bound)
  have parts : x = (x &&& 0xFF) ^^^ UInt32.ofNat (2 ^ 8 * (x.toNat / 2 ^ 8)) := by
    have low : x.toNat % 2 ^ 8 < 2 ^ 8 := Nat.mod_lt x.toNat (by decide)
    have sum := two_pow_mul_add_eq_xor low (x.toNat / 2 ^ 8)
    rw [Nat.div_add_mod, ← low_byte] at sum
    have back := congrArg UInt32.ofNat sum
    rw [UInt32.ofNat_toNat, UInt32.ofNat_xor, UInt32.ofNat_toNat, UInt32.xor_comm] at back
    exact back
  have split := congrArg (shifts 8) parts
  rw [shifts_xor, shifts_scaled (by omega), top] at split
  exact split

/-- The table holds what eight shifts make of the low byte; the others only move down. -/
theorem step_eq_shifts (c : UInt32) (b : UInt8) : step c b = shifts 8 (c ^^^ b.toUInt32) := by
  have outside : b.toUInt32 >>> 8 = 0 := by
    rw [← UInt32.toNat_inj, toNat_shiftRight_eight, UInt8.toNat_toUInt32]
    exact Nat.div_eq_of_lt b.toNat_lt
  rw [step, table_low, shifts_eight (c ^^^ b.toUInt32), UInt32.shiftRight_xor, outside,
    UInt32.xor_zero]

theorem step_eq_feed (c : UInt32) (b : UInt8) : step c b = feed c (byteBits b) := by
  have fits : (byteBits b).length ≤ 32 := Nat.le_of_ble_eq_true rfl
  have fed := feed_eq_shifts fits c
  rw [word_byteBits] at fed
  exact (step_eq_shifts c b).trans fed.symm

/-- Bytes are taken as their bits would be. -/
theorem update_eq_feed (c : UInt32) (bytes : List UInt8) :
    update c bytes = feed c (bytes.flatMap byteBits) := by
  induction bytes generalizing c with
  | nil => rfl
  | cons b bytes ih =>
    have rest := ih (step c b)
    rw [step_eq_feed] at rest
    rw [List.flatMap_cons, feed, List.foldl_append]
    exact (congrArg (update · bytes) (step_eq_feed c b)).trans rest

theorem update_flatten (c : UInt32) (parts : List (List UInt8)) :
    parts.foldl update c = update c parts.flatten := by
  induction parts generalizing c with
  | nil => rfl
  | cons part parts ih => rw [List.foldl_cons, ih, List.flatten_cons, update_append]

/-! ### The shift register -/

/-- The register after one more bit: where it differs from the low end, the polynomial is added. -/
def serialStep (r : BitVec 32) (b : Bool) : BitVec 32 :=
  if r.getLsbD 0 = b then r >>> 1 else (r >>> 1) ^^^ 0xEDB88320#32

/-- The checksum by its definition: each byte is taken from its least significant bit, the register
holds ones before the first of them and is inverted after the last. -/
def serial (bytes : List UInt8) : BitVec 32 :=
  ~~~(bytes.flatMap byteBits).foldl serialStep (BitVec.allOnes 32)

theorem toBitVec_shift (c : UInt32) :
    (shift c).toBitVec =
      if c.toBitVec.getLsbD 0 then (c.toBitVec >>> 1) ^^^ 0xEDB88320#32 else c.toBitVec >>> 1 := by
  have low : c.toBitVec.getLsbD 0 = decide (c.toNat % 2 = 1) := Nat.testBit_zero _
  rw [shift_eq, low]
  by_cases odd : c.toNat % 2 = 1
  · simp [odd, polynomial]
  · simp [odd]

theorem toBitVec_feedBit (c : UInt32) (b : Bool) :
    (feedBit c b).toBitVec = serialStep c.toBitVec b := by
  have taken : shift b.toUInt32 = if b then polynomial else 0 := by cases b <;> rfl
  rw [feedBit, shift_xor, taken, UInt32.toBitVec_xor, toBitVec_shift, serialStep]
  -- a low end that is set adds the polynomial, and so does the bit: two of them cancel
  cases c.toBitVec.getLsbD 0 <;> cases b
  · exact BitVec.xor_zero
  · rfl
  · exact BitVec.xor_zero
  · exact (BitVec.xor_assoc ..).trans BitVec.xor_zero

theorem toBitVec_feed (c : UInt32) (bits : List Bool) :
    (feed c bits).toBitVec = bits.foldl serialStep c.toBitVec := by
  induction bits generalizing c with
  | nil => rfl
  | cons b bits ih =>
    rw [List.foldl_cons, ← toBitVec_feedBit]
    exact ih (feedBit c b)

/-- The table computes what the shift register does. -/
theorem toBitVec_ofBytes (bytes : List UInt8) : (ofBytes bytes).toBitVec = serial bytes := by
  rw [ofBytes, UInt32.toBitVec_not, update_eq_feed, toBitVec_feed, serial]
  rfl

end PackageAssets.Crc32
