import PackageAssets.Proofs.Bytes.Stored
import PackageAssets.Proofs.Checksum.Serial

/-!
# Bursts

A burst flips bits of a message that lie close together. The checksum of the
message with a burst in it is another one: by linearity only the flipped bits
count, up to the first of them the register stays empty, together they fit
into it, and no shift after the last one empties it again.
-/
namespace PackageAssets.Crc32

open Deflate

/-- Bits are flipped inside a message of `count` bits, some of them, and within 32 positions. -/
structure Burst (flipped : Nat → Bool) (count : Nat) : Prop where
  occurs : ∃ i, flipped i = true
  inside : ∀ i, flipped i = true → i < count
  short : ∃ first, ∀ i, flipped i = true → first ≤ i ∧ i < first + 32

/-- Which of the first `count` bits are flipped. -/
def pattern (flipped : Nat → Bool) (count : Nat) : List Bool := (List.range count).map flipped

theorem pattern_succ (flipped : Nat → Bool) (count : Nat) :
    pattern flipped (count + 1) = flipped 0 :: pattern (fun i => flipped (i + 1)) count := by
  rw [pattern, List.range_succ_eq_map, List.map_cons, List.map_map]
  rfl

theorem feed_cons (c : UInt32) (b : Bool) (bits : List Bool) :
    feed c (b :: bits) = feed (feedBit c b) bits := rfl

theorem feed_append (c : UInt32) (a b : List Bool) : feed c (a ++ b) = feed (feed c a) b :=
  List.foldl_append

theorem feedBit_xor (c d : UInt32) (a b : Bool) :
    feedBit (c ^^^ d) (a ^^ b) = feedBit c a ^^^ feedBit d b := by
  have bit : (a ^^ b).toUInt32 = a.toUInt32 ^^^ b.toUInt32 := by
    cases a <;> cases b <;> rfl
  have regroup : c ^^^ d ^^^ (a.toUInt32 ^^^ b.toUInt32) =
      c ^^^ a.toUInt32 ^^^ (d ^^^ b.toUInt32) := by
    rw [UInt32.xor_assoc, UInt32.xor_assoc, ← UInt32.xor_assoc d, ← UInt32.xor_assoc a.toUInt32,
      UInt32.xor_comm d]
  rw [feedBit, feedBit, feedBit, bit, regroup, shift_xor]

/-- What flipped bits do to the register does not depend on the message. -/
theorem feed_flipBits (flipped : Nat → Bool) (bits : List Bool) (c d : UInt32) :
    feed (c ^^^ d) (flipBits flipped bits) =
      feed c bits ^^^ feed d (pattern flipped bits.length) := by
  induction bits generalizing flipped c d with
  | nil => rfl
  | cons b bits ih =>
    have first : flipBits flipped (b :: bits) =
        (b ^^ flipped 0) :: flipBits (fun i => flipped (i + 1)) bits := List.mapIdx_cons
    have rest := ih (fun i => flipped (i + 1)) (feedBit c b) (feedBit d (flipped 0))
    rw [← feedBit_xor] at rest
    rw [first, List.length_cons, pattern_succ]
    exact rest

theorem feed_zeros (c : UInt32) (count : Nat) :
    feed c (List.replicate count false) = shifts count c := by
  induction count generalizing c with
  | zero => rfl
  | succ count ih =>
    have plain : feedBit c false = shift c := congrArg shift UInt32.xor_zero
    rw [List.replicate_succ, feed_cons, plain]
    exact ih (shift c)

theorem word_eq_zero_iff {bits : List Bool} (fits : bits.length ≤ 32) :
    word bits = 0 ↔ ∀ b ∈ bits, b = false := by
  have small : bitsValue bits < 2 ^ 32 :=
    Nat.lt_of_lt_of_le (bitsValue_lt bits) (Nat.pow_le_pow_right (by decide) fits)
  rw [← bitsValue_eq_zero_iff, ← UInt32.toNat_inj, word, UInt32.toNat_ofNat_of_lt' small]
  rfl

/-- Flipped bits among the first 32 are seen at the end, however far that is. -/
theorem feed_pattern_near {flipped : Nat → Bool} {count : Nat}
    (occurs : ∃ i, flipped i = true ∧ i < count) (near : ∀ i, flipped i = true → i < 32) :
    feed 0 (pattern flipped count) ≠ 0 := by
  intro lost
  obtain ⟨i, flips, inside⟩ := occurs
  obtain ⟨front, back, split, fits⟩ : ∃ front back, count = front + back ∧ front ≤ 32 ∧
      (32 ≤ front ∨ back = 0) := ⟨min count 32, count - 32, by omega, by omega, by omega⟩
  have later : (List.range back).map (flipped ∘ (front + ·)) = List.replicate back false := by
    apply List.eq_replicate_iff.mpr
    refine ⟨by rw [List.length_map, List.length_range], ?_⟩
    intro b member
    obtain ⟨j, hj, rfl⟩ := List.mem_map.mp member
    have far := List.mem_range.mp hj
    apply Bool.eq_false_iff.mpr
    intro flips
    have close : front + j < 32 := near (front + j) flips
    omega
  have parts : pattern flipped count = pattern flipped front ++ List.replicate back false := by
    rw [pattern, split, List.range_add, List.map_append, List.map_map, later, pattern]
  have size : (pattern flipped front).length = front := by
    rw [pattern, List.length_map, List.length_range]
  have short : (pattern flipped front).length ≤ 32 := by
    rw [size]
    exact fits.1
  rw [parts, feed_append, feed_zeros, feed_eq_shifts short, UInt32.zero_xor] at lost
  have nothing := (word_eq_zero_iff short).mp (eq_zero_of_shifts (eq_zero_of_shifts lost))
  have member : flipped i ∈ pattern flipped front := by
    have := near i flips
    exact List.mem_map.mpr ⟨i, List.mem_range.mpr (by omega), rfl⟩
  rw [nothing _ member] at flips
  cases flips

/-- A burst is seen at the end, however far behind the start it is. -/
theorem feed_pattern {flipped : Nat → Bool} {count first : Nat}
    (occurs : ∃ i, flipped i = true ∧ i < count)
    (short : ∀ i, flipped i = true → first ≤ i ∧ i < first + 32) :
    feed 0 (pattern flipped count) ≠ 0 := by
  induction first generalizing flipped count with
  | zero => exact feed_pattern_near occurs fun i flips => by have := short i flips; omega
  | succ first ih =>
    have before : flipped 0 = false := by
      apply Bool.eq_false_iff.mpr
      intro flips
      exact Nat.not_succ_le_zero first (short 0 flips).1
    obtain ⟨i, flips, inside⟩ := occurs
    cases i with
    | zero =>
      rw [before] at flips
      cases flips
    | succ i =>
      obtain ⟨count, rfl⟩ := Nat.exists_eq_add_one_of_ne_zero (Nat.ne_zero_of_lt inside)
      rw [pattern_succ, feed_cons, before]
      refine ih ⟨i, flips, Nat.lt_of_succ_lt_succ inside⟩ ?_
      intro j flips
      have := short (j + 1) flips
      omega

/-- No burst is missed. -/
theorem ofBytes_flipBytes_ne {flipped : Nat → Bool} {bytes : List UInt8}
    (burst : Burst flipped (8 * bytes.length)) :
    ofBytes (flipBytes flipped bytes) ≠ ofBytes bytes := by
  intro same
  have size : (bytes.flatMap byteBits).length = 8 * bytes.length :=
    length_flatMap_of_sized length_byteBits bytes
  obtain ⟨i, flips⟩ := burst.occurs
  obtain ⟨first, short⟩ := burst.short
  have differs : feed 0 (pattern flipped (bytes.flatMap byteBits).length) ≠ 0 :=
    feed_pattern ⟨i, flips, size ▸ burst.inside i flips⟩ short
  have linear := feed_flipBits flipped (bytes.flatMap byteBits) initial 0
  rw [UInt32.xor_zero, ← flatMap_flipBytes, ← update_eq_feed, ← update_eq_feed,
    UInt32.not_inj.mp same] at linear
  exact differs ((UInt32.xor_right_inj _).mp (linear.symm.trans UInt32.xor_zero.symm))

end PackageAssets.Crc32
