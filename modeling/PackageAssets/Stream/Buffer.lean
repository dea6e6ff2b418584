import PackageAssets.Stream.Source

/-!
# Buffers

A source in memory keeps its bytes in a buffer with room behind them. How far it
was written is the length of the source; the room behind holds zeros, so that a
write further on leaves zeros in the gap. The buffer grows to a multiple of its
size, or to what a write needs if that is more.
-/
namespace PackageAssets

structure Buffer where
  /-- All bytes of the buffer, with the room behind those that were written. -/
  bytes : List UInt8
  length : Nat
  inside : length ≤ bytes.length
  deriving DecidableEq

namespace Buffer

def withCapacity (capacity : Nat) : Buffer := ⟨List.replicate capacity 0, 0, Nat.zero_le _⟩

def empty : Buffer := withCapacity Source.initialCapacity

def ofBytes (bytes : List UInt8) : Buffer := ⟨bytes, bytes.length, Nat.le_refl _⟩

def capacity (b : Buffer) : Nat := b.bytes.length

/-- The bytes written so far. -/
def content (b : Buffer) : List UInt8 := b.bytes.take b.length

def readAt (b : Buffer) (position count : Nat) : List UInt8 :=
  if b.length ≤ position then []
  else Source.bytesAt b.bytes position (min count (b.length - position))

/-- The bytes of a buffer with room for `required` of them. -/
def ensure (bytes : List UInt8) (required : Nat) : List UInt8 :=
  bytes.rightpad (Source.grown bytes.length required) 0

/-- `data` in the place of the bytes at `position`. -/
def replace (bytes : List UInt8) (position : Nat) (data : List UInt8) : List UInt8 :=
  bytes.take position ++ data ++ bytes.drop (position + data.length)

theorem le_grown (capacity required : Nat) : required ≤ Source.grown capacity required := by
  unfold Source.grown
  split <;> omega

theorem length_ensure (bytes : List UInt8) (required : Nat) :
    (ensure bytes required).length = max bytes.length (Source.grown bytes.length required) := by
  simp only [ensure, List.rightpad, List.length_append, List.length_replicate]
  omega

theorem length_replace {bytes data : List UInt8} {position : Nat}
    (room : position + data.length ≤ bytes.length) :
    (replace bytes position data).length = bytes.length := by
  simp only [replace, List.length_append, List.length_take, List.length_drop]
  omega

theorem length_written (bytes : List UInt8) (position : Nat) (data : List UInt8) :
    (replace (ensure bytes (position + data.length)) position data).length =
      max bytes.length (Source.grown bytes.length (position + data.length)) := by
  have room := le_grown bytes.length (position + data.length)
  rw [length_replace, length_ensure]
  rw [length_ensure]
  omega

/-- A buffer with `data` written at `position`. -/
def write (b : Buffer) (position : Nat) (data : List UInt8) : Buffer where
  bytes := replace (ensure b.bytes (position + data.length)) position data
  length := max b.length (position + data.length)
  inside := by
    have inside := b.inside
    have room := le_grown b.bytes.length (position + data.length)
    rw [length_written]
    omega

def writeAt (b : Buffer) (position : Nat) (data : List UInt8) : Except IoError Buffer :=
  match Count.add? position data.length with
  | none => .error .positionOverflow
  | some stop =>
    if Source.longestVector < stop then .error (.storage .capacityOverflow)
    else .ok (b.write position data)

end Buffer

end PackageAssets
