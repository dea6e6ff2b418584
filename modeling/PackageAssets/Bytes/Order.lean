import PackageAssets.Bytes.Count

/-!
# Numbers as bytes

A number of `width` bytes is written least significant byte first (`little`)
or last (`big`). A signed number is stored modulo the size of its width and
read back with the sign of its top bit.
-/
namespace PackageAssets

inductive ByteOrder where
  | little
  | big
  deriving DecidableEq, Repr

namespace ByteOrder

def ofLittle : List UInt8 → Nat
  | [] => 0
  | b :: rest => b.toNat + 256 * ofLittle rest

def toLittle : Nat → Nat → List UInt8
  | 0, _ => []
  | width + 1, n => UInt8.ofNat n :: toLittle width (n / 256)

def read : ByteOrder → List UInt8 → Nat
  | little, bytes => ofLittle bytes
  | big, bytes => ofLittle bytes.reverse

def write (order : ByteOrder) (width n : Nat) : List UInt8 :=
  match order with
  | little => toLittle width n
  | big => (toLittle width n).reverse

theorem length_toLittle (width n : Nat) : (toLittle width n).length = width := by
  induction width generalizing n with
  | zero => rfl
  | succ w ih => simp [toLittle, ih]

theorem length_write (order : ByteOrder) (width n : Nat) :
    (order.write width n).length = width := by
  cases order <;> simp [write, length_toLittle]

end ByteOrder

/-- How an integer is stored: its width in bytes, whether it carries a sign, and its byte order. -/
structure IntFormat where
  width : Nat
  signed : Bool
  order : ByteOrder
  deriving DecidableEq, Repr

namespace IntFormat

-- powers of numbers are the built-in ones, whatever a library brings
attribute [local instance (20000)] instPowNat

/-- The number of values of this width. -/
def modulus (f : IntFormat) : Nat := 256 ^ f.width

/-- Reads the top bit as a sign when the format has one. -/
def interpret (f : IntFormat) (n : Nat) : Int :=
  if f.signed ∧ f.modulus ≤ 2 * n then (n : Int) - f.modulus else n

def decode (f : IntFormat) (bytes : List UInt8) : Int := f.interpret (f.order.read bytes)

def encode (f : IntFormat) (value : Int) : List UInt8 :=
  f.order.write f.width (value.emod f.modulus).toNat

theorem length_encode (f : IntFormat) (value : Int) : (f.encode value).length = f.width :=
  ByteOrder.length_write _ _ _

end IntFormat

end PackageAssets
