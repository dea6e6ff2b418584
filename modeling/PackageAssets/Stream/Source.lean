import PackageAssets.Bytes.Count
import PackageAssets.Stream.Error

/-!
# Byte sources

A source is a run of bytes that is read and written at absolute positions.
`content` is everything there is; what holds it decides what an access may
do. A memory source grows with every write past its end, up to the longest
vector there can be, and keeps track of the room reserved for it. A file
refuses positions its disk has no blocks for, and writes when it was opened
for reading only. A gap left by a write holds zeros.
-/
namespace PackageAssets

inductive Storage where
  /-- Bytes in memory, with the room reserved so far. -/
  | memory (capacity : Nat)
  /-- A file, and the furthest position its disk admits. -/
  | file (writable : Bool) (furthest : Nat)
  | directory
  deriving DecidableEq, Repr

structure Source where
  content : List UInt8
  storage : Storage
  deriving DecidableEq, Repr

namespace Source

def initialCapacity : Nat := 1024

def growthFactor : Nat := 16

/-- No vector in memory has more bytes: the largest signed number of 64 bits. -/
def longestVector : Nat := 0x7FFFFFFFFFFFFFFF

def withCapacity (capacity : Nat) : Source := ⟨[], .memory capacity⟩

/-- An empty memory source with a little room. -/
def empty : Source := withCapacity initialCapacity

def ofBytes (bytes : List UInt8) : Source := ⟨bytes, .memory bytes.length⟩

/-- A file on a disk that admits positions up to `furthest`. -/
def ofFile (bytes : List UInt8) (writable : Bool) (furthest : Nat) : Source :=
  ⟨bytes, .file writable furthest⟩

def length (s : Source) : Nat := s.content.length

/-- The room reserved for the bytes; a file reserves none. -/
def capacity (s : Source) : Nat :=
  match s.storage with
  | .memory room => room
  | _ => s.length

def name (s : Source) : String :=
  match s.storage with
  | .memory _ => "Memory"
  | _ => "File"

/-- The bytes at `position`, as many as there are up to `count`. -/
def bytesAt (content : List UInt8) (position count : Nat) : List UInt8 :=
  (content.drop position).take count

/-- `content` with `bytes` put at `position`, zeros filling any gap before it. -/
def overwrite (content : List UInt8) (position : Nat) (bytes : List UInt8) : List UInt8 :=
  (content.take position).rightpad position 0 ++ bytes ++ content.drop (position + bytes.length)

def readAt (s : Source) (position count : Nat) : Except IoError (List UInt8) :=
  match s.storage with
  | .memory _ => .ok (bytesAt s.content position count)
  | .file _ furthest =>
    if furthest < position then .error (.storage .badPosition)
    else .ok (bytesAt s.content position count)
  | .directory => .error (.storage .isADirectory)

/-- The room after a write that ends at `required`. -/
def grown (capacity required : Nat) : Nat :=
  if required ≤ capacity then capacity else max required (Count.clamp (capacity * growthFactor))

def writeAt (s : Source) (position : Nat) (bytes : List UInt8) : Except IoError Source :=
  match s.storage with
  | .memory room =>
    match Count.add? position bytes.length with
    | none => .error .positionOverflow
    | some stop =>
      if longestVector < stop then .error (.storage .capacityOverflow)
      else .ok ⟨overwrite s.content position bytes, .memory (grown room stop)⟩
  | .file writable furthest =>
    if furthest < position then .error (.storage .badPosition)
    else if bytes = [] then .ok s
    else if writable then .ok { s with content := overwrite s.content position bytes }
    else .error (.storage .readOnly)
  | .directory => .error (.storage .isADirectory)

end Source

end PackageAssets
