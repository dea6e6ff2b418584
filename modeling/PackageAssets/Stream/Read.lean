import PackageAssets.Bytes.Order
import PackageAssets.Text.Utf8
import PackageAssets.Stream.Cursor

/-!
# Reading

`readBytes` is the one access to the source: it yields what is there, up to
the end of the window, and moves past it. Everything else is built on it. The
checked readers yield all they were asked for or fail and leave the position
where it was; terminated text is read in blocks, and what was read past the
terminator is given back.
-/
namespace PackageAssets.Stream

/-- How many of `count` bytes the window lets through; a root window leaves that to the source. -/
def allowance (s : Stream) (count : Nat) : Nat :=
  match s.window with
  | .root => count
  | .slice start stop => min count (stop - Count.clamp (start + s.position))

def readBytes (count : Nat) : StreamM (List UInt8) := fun s =>
  let limit := s.allowance count
  if limit = 0 then .ok [] s
  else match s.source.readAt s.absolute limit with
    | .ok bytes => .ok bytes (s.seek (s.position + bytes.length))
    | .error e => .error e s

/-- All of `count` bytes, or a failure that leaves the position alone. -/
def readExact (count : Nat) : StreamM (List UInt8) := fun s =>
  match readBytes count s with
  | .ok bytes after =>
    if bytes.length = count then .ok bytes after
    else .error (.notEnough count bytes.length) (after.seek s.position)
  | .error e after => .error e after

/-- Everything from the position to the end of the window. -/
def readRemaining : StreamM (List UInt8) := fun s => readBytes s.remaining s

def setPosition (position : Nat) : StreamM Unit := fun s => .ok () (s.seek position)

/-- Moves forward, no further than the largest position. -/
def skip (count : Nat) : StreamM Unit := fun s =>
  .ok () (s.seek (Count.clamp (s.position + count)))

/-- Moves back, if that stays inside the window. -/
def rewind (count : Nat) : StreamM Unit := fun s =>
  if count ≤ s.position then .ok () (s.seek (s.position - count))
  else .error .beforeStart s

/-- Runs a step and puts the position back, whatever came of it. -/
def keepPosition {α : Type} (step : StreamM α) : StreamM α := fun s =>
  match step s with
  | .ok a after => .ok a (after.seek s.position)
  | .error e after => .error e (after.seek s.position)

/-- A copy of the whole window. -/
def contents : StreamM (List UInt8) :=
  keepPosition do
    setPosition 0
    readRemaining

/-- A view of the next `count` bytes; the position moves past them. -/
def readStream (count : Nat) : StreamM Stream := fun s =>
  if s.remaining < count then .error (.notEnough count s.remaining) s
  else match s.slice (.included s.position) (.excluded (s.position + count)) with
    | .ok view => .ok view (s.seek (Count.clamp (s.position + count)))
    | .error e => .error e s

def readInt (format : IntFormat) : StreamM Int := do
  let bytes ← readExact format.width
  return format.decode bytes

/-- The integer, or zero when there are not enough bytes for it. -/
def readIntOrZero (format : IntFormat) : StreamM Int := fun s =>
  match readInt format s with
  | .ok n after => .ok n after
  | .error _ after => .ok 0 after

/-- An unsigned number of `width` bytes. -/
def readNat (order : ByteOrder) (width : Nat) : StreamM Nat := do
  let bytes ← readExact width
  return order.read bytes

def readByte : StreamM UInt8 := do
  let bytes ← readExact 1
  return bytes.headD 0

/-- Text in exactly `count` bytes, up to the first zero among them. -/
def readTextFixed (count : Nat) : StreamM String := do
  let bytes ← readExact count
  return Text.ofBytes (Text.untilZero bytes)

/-- Terminated text is read in blocks of this many bytes. -/
def textBlock : Nat := 64

/-- Reads at most `blocks` blocks after `found`, up to a zero byte, which is consumed. -/
def readUntilZero : (blocks : Nat) → (found : List UInt8) → StreamM (List UInt8)
  | 0, found => pure found
  | blocks + 1, found => do
    let block ← readBytes textBlock
    if block = [] then return found
    let before := Text.untilZero block
    if before.length < block.length then
      rewind (block.length - before.length - 1)
      return found ++ before
    readUntilZero blocks (found ++ block)

/-- Text up to a zero byte or the end of the window. The zero is consumed. -/
def readText : StreamM String := fun s =>
  (do return Text.ofBytes (← readUntilZero (s.remaining + 1) []) : StreamM String) s

end PackageAssets.Stream
