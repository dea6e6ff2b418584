import PackageAssets.Stream.Write

/-!
# The plain byte-stream interface

A stream also serves as an ordinary reader, writer and seeker, whose failures
carry only a kind and sometimes a text. Unlike the checked readers, filling a
buffer here consumes what there is before it fails.
-/
namespace PackageAssets

inductive StandardKind where
  | unexpectedEnd
  | invalidInput
  | notFound
  | notADirectory
  | isADirectory
  | uncategorized
  | other
  deriving DecidableEq, Repr

structure StandardError where
  kind : StandardKind
  text : Option String
  deriving DecidableEq, Repr

namespace StandardError

def ofFault : StorageFault → StandardError
  | .notFound => ⟨.notFound, none⟩
  | .notADirectory => ⟨.notADirectory, none⟩
  | .isADirectory => ⟨.isADirectory, none⟩
  | .readOnly => ⟨.uncategorized, none⟩
  | .badPosition => ⟨.invalidInput, none⟩
  | .badName => ⟨.invalidInput, none⟩
  | .nameTooLong => ⟨.invalidInput, none⟩
  | .capacityOverflow => ⟨.uncategorized, none⟩

def ofIo : IoError → StandardError
  | .storage fault => ofFault fault
  | e@(.notEnough ..) => ⟨.unexpectedEnd, some e.message⟩
  | e => ⟨.other, some e.message⟩

def badSeek : StandardError :=
  ⟨.invalidInput, some "invalid seek to a negative or overflowing position"⟩

end StandardError

abbrev StandardM := EStateM StandardError Stream

namespace Stream.Standard

def lift {α : Type} (step : StreamM α) : StandardM α := fun s =>
  match step s with
  | .ok a after => .ok a after
  | .error e after => .error (.ofIo e) after

def read (count : Nat) : StandardM (List UInt8) := lift (readBytes count)

/-- Fills a buffer; a short stream is consumed before this fails. -/
def readFull (count : Nat) : StandardM (List UInt8) := do
  let bytes ← read count
  if bytes.length < count then throw ⟨.unexpectedEnd, none⟩
  return bytes

/-- Reads on until the stream yields nothing more. -/
def readToEnd : StandardM (List UInt8) := fun s => lift (readBytes (s.remaining + 1)) s

def write (bytes : List UInt8) : StandardM Nat := do
  lift (writeBytes bytes)
  return bytes.length

/-- Writes until nothing is left, so that no bytes need no write. -/
def writeAll (bytes : List UInt8) : StandardM Unit :=
  if bytes = [] then pure () else lift (writeBytes bytes)

inductive Anchor where
  | start
  | stop
  | current
  deriving DecidableEq, Repr

/-- Moves to a distance from the start, the end or the position, and yields the new position. -/
def seek (anchor : Anchor) (distance : Int) : StandardM Nat := fun s =>
  let target := match anchor with
    | .start => Count.offset? 0 distance
    | .stop => Count.offset? s.length distance
    | .current => Count.offset? s.position distance
  match target with
  | some position => .ok position (s.seek position)
  | none => .error .badSeek s

end Stream.Standard

end PackageAssets
