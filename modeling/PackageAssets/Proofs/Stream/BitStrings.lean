import PackageAssets.Proofs.Deflate.Bits
import PackageAssets.Stream.Bits

/-!
# Bit strings in two orders

A reader takes the bits of a byte from its high or its low end, and a writer
fills them in from there, so in either order a stream is one string of bits.
Pending bits are such a string held in a number: putting a field next to them
appends to the string, taking some of them takes them off its front.
-/
namespace PackageAssets

open Deflate (bitsValue bitsValue_append bitsValue_bits bitsValue_lt bits_bitsValue
  bitsValue_eq_zero_iff)

namespace BitOrder

variable (order : BitOrder)

/-- Bits of this order from the low end on, or the other way round. -/
def arrange : BitOrder → List Bool → List Bool
  | high, bits => bits.reverse
  | low, bits => bits

@[simp] theorem length_arrange (bits : List Bool) : (order.arrange bits).length = bits.length := by
  cases order with
  | high => exact List.length_reverse
  | low => rfl

@[simp] theorem arrange_arrange (bits : List Bool) : order.arrange (order.arrange bits) = bits := by
  cases order with
  | high => exact List.reverse_reverse bits
  | low => rfl

/-- The number that a string of bits makes. -/
def number (bits : List Bool) : Nat := bitsValue (order.arrange bits)

/-- The lowest `width` bits of a number as a string. -/
def field (width n : Nat) : List Bool :=
  order.arrange ((List.range width).map fun i => decide (n / 2 ^ i % 2 = 1))

@[simp] theorem length_field (width n : Nat) : (order.field width n).length = width := by
  simp [field]

theorem number_field (width n : Nat) : order.number (order.field width n) = n % 2 ^ width := by
  rw [number, field, arrange_arrange, bitsValue_bits]

theorem field_number (bits : List Bool) : order.field bits.length (order.number bits) = bits := by
  have same := bits_bitsValue (order.arrange bits)
  rw [length_arrange] at same
  rw [field, number, same, arrange_arrange]

theorem number_lt (bits : List Bool) : order.number bits < 2 ^ bits.length := by
  have small := bitsValue_lt (order.arrange bits)
  rwa [length_arrange] at small

theorem number_replicate_false (count : Nat) :
    order.number (List.replicate count false) = 0 := by
  rw [number, bitsValue_eq_zero_iff]
  intro b member
  cases order with
  | high => exact List.eq_of_mem_replicate (List.mem_reverse.mp member)
  | low => exact List.eq_of_mem_replicate member

theorem number_append (a b : List Bool) :
    order.number (a ++ b) =
      Stream.joinBits order (order.number a) a.length (order.number b) b.length := by
  cases order with
  | high =>
    simp only [number, arrange, List.reverse_append, bitsValue_append, List.length_reverse,
      Stream.joinBits]
    exact Nat.add_comm ..
  | low => exact bitsValue_append a b

/-- The bits of a byte. -/
def ofByte (b : UInt8) : List Bool := order.field 8 b.toNat

@[simp] theorem length_ofByte (b : UInt8) : (order.ofByte b).length = 8 := order.length_field ..

theorem number_ofByte (b : UInt8) : order.number (order.ofByte b) = b.toNat := by
  rw [ofByte, number_field]
  exact Nat.mod_eq_of_lt b.toNat_lt

theorem ofByte_number {bits : List Bool} (size : bits.length = 8) :
    order.ofByte (UInt8.ofNat (order.number bits)) = bits := by
  have small := order.number_lt bits
  rw [size] at small
  rw [ofByte, UInt8.toNat_ofNat', Nat.mod_eq_of_lt small, ← size, field_number]

end BitOrder

namespace PendingBits

/-- A string of bits as pending bits. -/
def holding (order : BitOrder) (bits : List Bool) : PendingBits := ⟨order.number bits, bits.length⟩

theorem holding_nil (order : BitOrder) : holding order [] = .none := by
  cases order <;> rfl

theorem holding_replicate_false (order : BitOrder) (count : Nat) :
    holding order (List.replicate count false) = ⟨0, count⟩ := by
  rw [holding, BitOrder.number_replicate_false, List.length_replicate]

theorem ofByte_eq_holding (order : BitOrder) (b : UInt8) :
    ofByte b = holding order (order.ofByte b) := by
  rw [holding, BitOrder.number_ofByte, BitOrder.length_ofByte]
  rfl

/-- Bits are taken off the front of the string. -/
theorem take_holding (order : BitOrder) (a b : List Bool) :
    (holding order (a ++ b)).take order a.length = (order.number a, holding order b) := by
  have first := order.number_lt a
  have second := order.number_lt b
  have together := order.number_append a b
  cases order with
  | high =>
    have left : (a ++ b).length - a.length = b.length := by simp
    simp only [Stream.joinBits] at together
    simp only [holding, take, left, together]
    rw [Nat.mul_comm, Nat.mul_add_div (Nat.two_pow_pos _), Nat.div_eq_of_lt second, Nat.add_zero,
      Nat.mod_eq_of_lt first, Nat.mul_add_mod, Nat.mod_eq_of_lt second]
  | low =>
    have left : (a ++ b).length - a.length = b.length := by simp
    simp only [Stream.joinBits] at together
    simp only [holding, take, left, together]
    rw [Nat.add_mul_mod_self_right, Nat.mod_eq_of_lt first, Nat.add_mul_div_right _ _
      (Nat.two_pow_pos _), Nat.div_eq_of_lt first, Nat.zero_add]

end PendingBits

/-- A field is put behind the pending bits. -/
theorem BitPacker.join_holding {p : BitPacker} {bits : List Bool}
    (pending : p.pending = .holding p.order bits) (width value : Nat) :
    p.join width value = .holding p.order (bits ++ p.order.field width value) := by
  have together := p.order.number_append bits (p.order.field width value)
  rw [BitOrder.number_field, BitOrder.length_field] at together
  rw [PendingBits.holding, together, List.length_append, BitOrder.length_field, join, pending]
  cases p.order <;> rfl

end PackageAssets
