import Mathlib.Algebra.Group.Nat.Defs
import PackageAssets.Deflate.BitSource

/-!
# Bits and the numbers they make

A number is given by its bits from the low end. Some of the bits of a message
can be flipped; the bytes of the flipped message are the bytes of the message
with some of their bits flipped.
-/
namespace PackageAssets.Deflate

/-- The number whose bits these are, the first one least significant. -/
def bitsValue : List Bool → Nat
  | [] => 0
  | b :: bits => b.toNat + 2 * bitsValue bits

theorem bitsValue_bits (count n : Nat) :
    bitsValue ((List.range count).map fun i => decide (n / 2 ^ i % 2 = 1)) = n % 2 ^ count := by
  induction count generalizing n with
  | zero => rw [Nat.pow_zero, Nat.mod_one]; rfl
  | succ count ih =>
    have first : (decide (n / 2 ^ 0 % 2 = 1)).toNat = n % 2 := by
      rw [Nat.pow_zero, Nat.div_one]
      rcases Nat.mod_two_eq_zero_or_one n with h | h <;> simp [h]
    have shifted : ((fun i => decide (n / 2 ^ i % 2 = 1)) ∘ Nat.succ) =
        fun i => decide (n / 2 / 2 ^ i % 2 = 1) := by
      funext i
      rw [Function.comp_apply, Nat.pow_succ', Nat.div_div_eq_div_mul]
    rw [List.range_succ_eq_map, List.map_cons, List.map_map, shifted, bitsValue, first, ih,
      Nat.pow_succ', Nat.mod_mul]

theorem length_byteBits (b : UInt8) : (byteBits b).length = 8 := rfl

theorem bitsValue_byteBits (b : UInt8) : bitsValue (byteBits b) = b.toNat := by
  rw [byteBits, bitsValue_bits]
  exact Nat.mod_eq_of_lt b.toNat_lt

theorem bitsValue_lt (bits : List Bool) : bitsValue bits < 2 ^ bits.length := by
  induction bits with
  | nil => exact Nat.one_pos
  | cons b bits ih =>
    have small := b.toNat_le
    rw [bitsValue, List.length_cons, Nat.pow_succ]
    omega

theorem bitsValue_eq_zero_iff (bits : List Bool) :
    bitsValue bits = 0 ↔ ∀ b ∈ bits, b = false := by
  induction bits with
  | nil => exact ⟨fun _ _ member => absurd member List.not_mem_nil, fun _ => rfl⟩
  | cons b bits ih =>
    rw [bitsValue, Nat.add_eq_zero_iff, Nat.mul_eq_zero, ih, List.forall_mem_cons,
      Bool.toNat_eq_zero]
    exact and_congr_right fun _ => or_iff_right (by decide)

theorem bitsValue_append (a b : List Bool) :
    bitsValue (a ++ b) = bitsValue a + bitsValue b * 2 ^ a.length := by
  induction a with
  | nil => simp [bitsValue]
  | cons c a ih =>
    rw [List.cons_append, bitsValue, ih, bitsValue, List.length_cons, Nat.pow_succ', Nat.mul_add,
      Nat.add_assoc, Nat.mul_left_comm]

theorem bits_bitsValue (bits : List Bool) :
    ((List.range bits.length).map fun i => decide (bitsValue bits / 2 ^ i % 2 = 1)) = bits := by
  induction bits with
  | nil => rfl
  | cons b bits ih =>
    have first : decide (bitsValue (b :: bits) / 2 ^ 0 % 2 = 1) = b := by
      rw [bitsValue, Nat.pow_zero, Nat.div_one, Nat.add_mul_mod_self_left]
      cases b <;> rfl
    have later : bitsValue (b :: bits) / 2 = bitsValue bits := by
      have small := b.toNat_le
      rw [bitsValue]
      cases b <;> omega
    rw [List.length_cons, List.range_succ_eq_map, List.map_cons, List.map_map, first]
    refine congrArg (b :: ·) (Eq.trans (List.map_congr_left fun i _ => ?_) ih)
    rw [Function.comp_apply, Nat.pow_succ', ← Nat.div_div_eq_div_mul, later]

/-- The byte with these bits. -/
def byteOf (bits : List Bool) : UInt8 := UInt8.ofNat (bitsValue bits)

theorem byteBits_byteOf {bits : List Bool} (size : bits.length = 8) :
    byteBits (byteOf bits) = bits := by
  have small : bitsValue bits < 2 ^ 8 := size ▸ bitsValue_lt bits
  have value : (byteOf bits).toNat = bitsValue bits := by
    rw [byteOf, UInt8.toNat_ofNat']
    exact Nat.mod_eq_of_lt small
  rw [byteBits, value, ← size]
  exact bits_bitsValue bits

/-! ### Flipped bits -/

/-- Bits of which some are flipped, given by their positions. -/
def flipBits (flipped : Nat → Bool) (bits : List Bool) : List Bool :=
  bits.mapIdx fun i b => b ^^ flipped i

/-- Bytes of which some bits are flipped; positions count from the low end of each byte. -/
def flipBytes : (flipped : Nat → Bool) → List UInt8 → List UInt8
  | _, [] => []
  | flipped, b :: bytes =>
    byteOf (flipBits flipped (byteBits b)) :: flipBytes (fun i => flipped (i + 8)) bytes

theorem length_flipBytes (flipped : Nat → Bool) (bytes : List UInt8) :
    (flipBytes flipped bytes).length = bytes.length := by
  induction bytes generalizing flipped with
  | nil => rfl
  | cons b bytes ih => exact congrArg Nat.succ (ih _)

/-- The bits of flipped bytes are the flipped bits. -/
theorem flatMap_flipBytes (flipped : Nat → Bool) (bytes : List UInt8) :
    (flipBytes flipped bytes).flatMap byteBits = flipBits flipped (bytes.flatMap byteBits) := by
  induction bytes generalizing flipped with
  | nil => rfl
  | cons b bytes ih =>
    have size : (flipBits flipped (byteBits b)).length = 8 := 
      List.length_mapIdx.trans (length_byteBits b)
    have later := ih fun i => flipped (i + 8)
    rw [flipBytes, List.flatMap_cons, byteBits_byteOf size, later, List.flatMap_cons, flipBits,
      flipBits, flipBits, List.mapIdx_append]
    rfl

end PackageAssets.Deflate
