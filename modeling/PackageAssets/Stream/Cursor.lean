import PackageAssets.Stream.Source

/-!
# Cursors

A cursor is a place in a source: the window of the source it can see, a
position counted from the start of that window, and the bits of a partly read
byte. Windows are absolute, so a view of a view is again one window on the
source. A stream is a cursor together with the source it stands on, and the
operations on it are steps that may fail: a failed step still says what
stream it leaves behind.
-/
namespace PackageAssets

/-- The part of a source a cursor sees: all of it, growing with it, or `[start, stop)`. -/
inductive Window where
  | root
  | slice (start stop : Nat)
  deriving DecidableEq, Repr

namespace Window

def base : Window → Nat
  | root => 0
  | slice start _ => start

def isSlice : Window → Bool
  | root => false
  | slice .. => true

end Window

/-- The bits of a byte that are still to be read: `count` bits, held in `value`. -/
structure PendingBits where
  value : Nat
  count : Nat
  deriving DecidableEq, Repr

def PendingBits.none : PendingBits := ⟨0, 0⟩

structure Cursor where
  window : Window
  position : Nat
  pending : PendingBits
  deriving DecidableEq, Repr

namespace Cursor

/-- A cursor at the start of `window`. -/
def start (window : Window) : Cursor := ⟨window, 0, .none⟩

def root : Cursor := start .root

end Cursor

structure Stream where
  source : Source
  cursor : Cursor
  deriving DecidableEq, Repr

/-- A step on a stream. -/
abbrev StreamM := EStateM IoError Stream

/-- One end of a range. -/
inductive Edge where
  | unbounded
  | included (n : Nat)
  | excluded (n : Nat)
  deriving DecidableEq, Repr

namespace Stream

def onSource (source : Source) : Stream := ⟨source, .root⟩

def ofBytes (bytes : List UInt8) : Stream := onSource (.ofBytes bytes)

/-- A stream over an empty memory source. -/
def empty : Stream := onSource .empty

def window (s : Stream) : Window := s.cursor.window

def position (s : Stream) : Nat := s.cursor.position

def seek (s : Stream) (position : Nat) : Stream :=
  { s with cursor := { s.cursor with position := position } }

/-- The length of the window. -/
def length (s : Stream) : Nat :=
  match s.window with
  | .root => s.source.length
  | .slice start stop => stop - start

/-- The bytes between the position and the end of the window. -/
def remaining (s : Stream) : Nat := s.length - s.position

def atEnd (s : Stream) : Bool := s.remaining = 0

/-- The position in the source. -/
def absolute (s : Stream) : Nat := s.window.base + s.position

/-- Resolves the edges of a range against a length. -/
def resolve (lower upper : Edge) (length : Nat) : Nat × Nat :=
  let start := match lower with
    | .unbounded => 0
    | .included n => n
    | .excluded n => Count.clamp (n + 1)
  let stop := match upper with
    | .unbounded => length
    | .included n => Count.clamp (n + 1)
    | .excluded n => n
  (start, stop)

/-- A view of part of the window, at its start. It shares the source and is one window on it. -/
def slice (s : Stream) (lower upper : Edge) : Except IoError Stream :=
  let (start, stop) := resolve lower upper s.length
  if stop < start ∨ s.length < stop then .error (.outOfBounds start stop s.length)
  else .ok ⟨s.source, .start (.slice (s.window.base + start) (s.window.base + stop))⟩

/-- A view of the whole window. -/
def wholeSlice (s : Stream) : Except IoError Stream := s.slice .unbounded .unbounded

/-- A view from the position to the end of the window. -/
def sliceRemaining (s : Stream) : Except IoError Stream :=
  s.slice (.included s.position) .unbounded

/-- A cursor in words. -/
def describe (s : Stream) : String :=
  let window := match s.window with
    | .root => "Root"
    | .slice start stop => s!"Slice \x7b start: {start}, end: {stop} \x7d"
  s!"ByteCursor \x7b source: \"{s.source.name}\", window: {window}, position: {s.position}, " ++
    s!"available_bits: {s.cursor.pending.count} \x7d"

end Stream

end PackageAssets
