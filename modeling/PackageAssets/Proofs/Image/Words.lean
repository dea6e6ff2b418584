import Mathlib.Algebra.Group.Nat.Defs
import PackageAssets.Bytes.Count

/-!
# Sizes in words

Sizes are natural numbers here. A machine computes them in words of 64 bits and
keeps only what fits, so that a product too large for a word comes out small. A
word holds a number as long as none of that happened: each operation keeps it up
to `2 ^ 64`, and what is left to prove of a size is that it stays below.
-/
namespace PackageAssets

/-- The word is the number. -/
def Holds (word : UInt64) (n : Nat) : Prop := word.toNat = n

namespace Holds

variable {a b : UInt64} {m n : Nat}

theorem ofNat (small : n < 2 ^ 64) : Holds (.ofNat n) n :=
  UInt64.toNat_ofNat_of_lt' small

theorem add (left : Holds a m) (right : Holds b n) (small : m + n < 2 ^ 64) :
    Holds (a + b) (m + n) := by
  rw [Holds, UInt64.toNat_add, left, right]
  exact Nat.mod_eq_of_lt small

theorem mul (left : Holds a m) (right : Holds b n) (small : m * n < 2 ^ 64) :
    Holds (a * b) (m * n) := by
  rw [Holds, UInt64.toNat_mul, left, right]
  exact Nat.mod_eq_of_lt small

theorem sub (left : Holds a m) (right : Holds b n) (ordered : n ≤ m) : Holds (a - b) (m - n) := by
  have ordered : b ≤ a := UInt64.le_iff_toNat_le.mpr (by rwa [left, right])
  rw [Holds, UInt64.toNat_sub_of_le _ _ ordered, left, right]

theorem div (left : Holds a m) (right : Holds b n) : Holds (a / b) (m / n) := by
  rw [Holds, UInt64.toNat_div, left, right]

/-- The mask clears the two lowest bits, which leaves the multiple of four below. -/
theorem roundDown (word : Holds a m) : Holds (a &&& ~~~3) (m / 4 * 4) := by
  have small : m < 2 ^ 64 := word ▸ a.toNat_lt
  have mask : (~~~3 : UInt64).toNat = 2 ^ 64 - (3 + 1) := rfl
  have low (i : Nat) : (3 : Nat).testBit i = decide (i < 2) := Nat.testBit_two_pow_sub_one 2 i
  have shifts : m / 4 * 4 = m >>> 2 <<< 2 := by
    rw [Nat.shiftLeft_eq, Nat.shiftRight_eq_div_pow]
  rw [Holds, UInt64.toNat_and, word, mask, shifts]
  apply Nat.eq_of_testBit_eq
  intro i
  rw [Nat.testBit_and, Nat.testBit_two_pow_sub_succ (by decide), low, Nat.testBit_shiftLeft,
    Nat.testBit_shiftRight]
  by_cases cleared : i < 2
  · simp [cleared, Nat.not_le.mpr cleared]
  rw [Nat.add_sub_cancel' (Nat.not_lt.mp cleared)]
  by_cases inside : i < 64
  · simp [cleared, inside, Nat.not_lt.mp cleared]
  · have above : m < 2 ^ i :=
      Nat.lt_of_lt_of_le small (Nat.pow_le_pow_right (by decide) (Nat.not_lt.mp inside))
    simp [Nat.testBit_lt_two_pow above]

end Holds

/--
What is computed of a rectangle comes out right in words: how many elements it has, where each row
starts and stops, and which row it is from the other side.
-/
structure RectangleHeld (width height : Nat) : Prop where
  wide : Holds (.ofNat width) width
  tall : Holds (.ofNat height) height
  size : Holds (.ofNat width * .ofNat height) (width * height)
  start : ∀ y < height, Holds (.ofNat y * .ofNat width) (y * width)
  stop : ∀ y < height, Holds ((.ofNat y + 1) * .ofNat width) ((y + 1) * width)
  inside : ∀ y < height, (y + 1) * width ≤ width * height
  mirrored : ∀ y < height, Holds (.ofNat height - 1 - .ofNat y) (height - 1 - y)

theorem rectangleHeld {width height : Nat} (wide : width < 2 ^ 64)
    (tall : height < 2 ^ 64) (small : width * height < 2 ^ 64) :
    RectangleHeld width height := by
  have row {y : Nat} (low : y < height) : (y + 1) * width ≤ width * height := by
    rw [Nat.mul_comm width]
    exact Nat.mul_le_mul_right width low
  have held {y : Nat} (low : y < height) : Holds (.ofNat y) y := .ofNat (Nat.lt_trans low tall)
  have one : Holds 1 1 := rfl
  constructor
  · exact .ofNat wide
  · exact .ofNat tall
  · exact .mul (.ofNat wide) (.ofNat tall) small
  · intro y low
    have before := Nat.le_trans (Nat.mul_le_mul_right width (Nat.le_succ y)) (row low)
    exact (held low).mul (.ofNat wide) (Nat.lt_of_le_of_lt before small)
  · intro y low
    have next := (held low).add one (Nat.lt_of_le_of_lt low tall)
    exact next.mul (.ofNat wide) (Nat.lt_of_le_of_lt (row low) small)
  · intro y low
    exact row low
  · intro y low
    exact ((Holds.ofNat tall).sub one (by omega)).sub (held low) (by omega)

end PackageAssets
