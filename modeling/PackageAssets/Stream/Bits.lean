import PackageAssets.Stream.Read

/-!
# Bit fields

Bits are taken from a byte at its high end or at its low end. A field read
from the high end collects its bits most significant first; one read from the
low end least significant first. The unread bits of the last byte stay with
the cursor. `BitPacker` is the writer that goes with both orders.
-/
namespace PackageAssets

-- powers of numbers are the built-in ones, whatever a library brings
attribute [local instance (20000)] instPowNat

inductive BitOrder where
  | high
  | low
  deriving DecidableEq, Repr

/-- The widest field. -/
def BitOrder.widest : Nat := 32

namespace PendingBits

def ofByte (b : UInt8) : PendingBits := ⟨b.toNat, 8⟩

/-- Takes `n` of the pending bits. -/
def take (p : PendingBits) (order : BitOrder) (n : Nat) : Nat × PendingBits :=
  match order with
  | .high =>
    let left := p.count - n
    (p.value / 2 ^ left % 2 ^ n, ⟨p.value % 2 ^ left, left⟩)
  | .low => (p.value % 2 ^ n, ⟨p.value / 2 ^ n, p.count - n⟩)

end PendingBits

namespace Stream

def withPending (s : Stream) (p : PendingBits) : Stream :=
  { s with cursor := { s.cursor with pending := p } }

def alignBits : StreamM Unit := fun s => .ok () (s.withPending .none)

/-- The pending bits, after loading a byte if there are none. -/
def loadBits : StreamM PendingBits := fun s =>
  if s.cursor.pending.count = 0 then
    match readByte s with
    | .ok b after => .ok (.ofByte b) (after.withPending (.ofByte b))
    | .error e after => .error e after
  else .ok s.cursor.pending s

/-- Puts `n` new bits next to the `gathered` bits of a field of which `held` were there. -/
def joinBits (order : BitOrder) (gathered held new n : Nat) : Nat :=
  match order with
  | .high => gathered * 2 ^ n + new
  | .low => gathered + new * 2 ^ held

/-- Collects `wanted` more bits in at most `rounds` takes. -/
def gatherBits (order : BitOrder) :
    (rounds wanted gathered held : Nat) → StreamM Nat
  | 0, _, gathered, _ => pure gathered
  | _ + 1, 0, gathered, _ => pure gathered
  | rounds + 1, wanted, gathered, held => do
    let pending ← loadBits
    let n := min wanted pending.count
    let (new, left) := pending.take order n
    modify (·.withPending left)
    gatherBits order rounds (wanted - n) (joinBits order gathered held new n) (held + n)

/-- A field of `width` bits. On failure the cursor is left as it was. -/
def readBits (order : BitOrder) (width : Nat) : StreamM Nat := fun s =>
  if BitOrder.widest < width then .error (.bitWidth width) s
  else match gatherBits order width width 0 0 s with
    | .ok n after => .ok n after
    | .error e after => .error e { after with cursor := s.cursor }

end Stream

/-- Fields packed so far: whole bytes, and the `count` bits after them. -/
structure BitPacker where
  order : BitOrder
  bytes : List UInt8
  pending : PendingBits
  deriving DecidableEq, Repr

namespace BitPacker

def empty (order : BitOrder) : BitPacker := ⟨order, [], .none⟩

/-- Appends the bits of `value` below `width`. -/
def join (p : BitPacker) (width value : Nat) : PendingBits :=
  let field := value % 2 ^ width
  match p.order with
  | .high => ⟨p.pending.value * 2 ^ width + field, p.pending.count + width⟩
  | .low => ⟨p.pending.value + field * 2 ^ p.pending.count, p.pending.count + width⟩

/-- Moves whole bytes out of the pending bits, at most `rounds` of them. -/
def flush : (rounds : Nat) → BitPacker → BitPacker
  | 0, p => p
  | rounds + 1, p =>
    if p.pending.count < 8 then p
    else
      let (b, left) := p.pending.take p.order 8
      flush rounds { p with bytes := p.bytes ++ [UInt8.ofNat b], pending := left }

def put (p : BitPacker) (width value : Nat) : Except IoError BitPacker :=
  if BitOrder.widest < width then .error (.bitWidth width)
  else .ok (flush (p.pending.count + width) { p with pending := p.join width value })

/-- The bytes, the last one filled up with zero bits. -/
def finish (p : BitPacker) : List UInt8 :=
  if p.pending.count = 0 then p.bytes
  else
    let last := match p.order with
      | .high => p.pending.value * 2 ^ (8 - p.pending.count)
      | .low => p.pending.value
    p.bytes ++ [UInt8.ofNat last]

end BitPacker

end PackageAssets
