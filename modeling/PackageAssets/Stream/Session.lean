import PackageAssets.Stream.Bits
import PackageAssets.Stream.Standard

/-!
# Sessions

A session is a family of numbered cursors over numbered sources. Cursors made
by slicing share the source of the cursor they come from. An operation acts
on one cursor, and a copy moves a second one; each step answers with the
result and with where the acting cursor then stands.
-/
namespace PackageAssets

/-- A cursor and the number of its source. -/
structure Placed where
  source : Nat
  cursor : Cursor
  deriving DecidableEq, Repr

structure Session where
  sources : List Source
  cursors : List Placed
  deriving DecidableEq, Repr

/-- What a single cursor can be asked to do. -/
inductive Action where
  | position
  | length
  | remaining
  | availableBits
  | atEnd
  | isSlice
  | window
  | describe
  | setPosition (position : Nat)
  | skip (count : Nat)
  | rewind (count : Nat)
  | alignBits
  | readBytes (count : Nat)
  | readExact (count : Nat)
  | readVector (count : Nat)
  | readRemaining
  | contents
  | writeBytes (bytes : List UInt8)
  | readInt (format : IntFormat)
  | readIntOrZero (format : IntFormat)
  | writeInt (format : IntFormat) (value : Int)
  | readTextFixed (count : Nat)
  | readText
  | writeText (text : String)
  | writeTextFixed (text : String) (count : Nat)
  | writeToAlign (alignment : Nat) (b : UInt8)
  | readBits (order : BitOrder) (width : Nat)
  | standardRead (count : Nat)
  | standardReadFull (count : Nat)
  | standardReadToEnd
  | standardWrite (bytes : List UInt8)
  | standardWriteAll (bytes : List UInt8)
  | standardFlush
  | standardSeek (anchor : Stream.Standard.Anchor) (distance : Int)
  deriving DecidableEq, Repr

/-- What a cursor can be asked to make: each appends a cursor to the session. -/
inductive Derivation where
  | slice (lower upper : Edge)
  | sliceRemaining
  | readStream (count : Nat)
  /-- Another cursor at the start of the same source. -/
  | shared
  /-- A cursor over a new empty memory source. -/
  | memory
  /-- A cursor over a new memory source with these bytes. -/
  | bytes (content : List UInt8)
  deriving DecidableEq, Repr

inductive Op where
  | act (action : Action)
  | make (derivation : Derivation)
  /-- Copies everything left in another cursor to this one. -/
  | copyFrom (other : Nat)
  /-- Operations on the same cursor, whose position is put back afterwards. -/
  | keepPosition (ops : List Op)

/-- The result of an operation. -/
inductive Answer where
  | done
  | number (n : Int)
  | truth (b : Bool)
  | window (w : Window)
  | text (s : String)
  | bytes (data : List UInt8)
  /-- The bytes a plain read put at the start of its buffer. -/
  | block (data : List UInt8)
  | cursor (number : Nat)
  | failed (e : IoError)
  | failedStandard (e : StandardError)
  /-- One entry for each inner operation: its answer, the position and the pending bits. -/
  | steps (inner : List (Answer × Nat × Nat))
  /-- There is no cursor of that number. -/
  | noCursor

/-- An answer, and the position and pending bits of the acting cursor after it. -/
abbrev Report := Answer × Nat × Nat

namespace Answer

def ofResult {α : Type} (answer : α → Answer) :
    EStateM.Result IoError Stream α → Answer × Stream
  | .ok a s => (answer a, s)
  | .error e s => (.failed e, s)

def ofStandard {α : Type} (answer : α → Answer) :
    EStateM.Result StandardError Stream α → Answer × Stream
  | .ok a s => (answer a, s)
  | .error e s => (.failedStandard e, s)

def ofUnit (_ : Unit) : Answer := .done

def ofNat (n : Nat) : Answer := .number n

end Answer

namespace Action

/-- Carries out an action on a stream. -/
def run (action : Action) (s : Stream) : Answer × Stream :=
  match action with
  | .position => (.ofNat s.position, s)
  | .length => (.ofNat s.length, s)
  | .remaining => (.ofNat s.remaining, s)
  | .availableBits => (.ofNat s.cursor.pending.count, s)
  | .atEnd => (.truth s.atEnd, s)
  | .isSlice => (.truth s.window.isSlice, s)
  | .window => (.window s.window, s)
  | .describe => (.text s.describe, s)
  | .setPosition p => Answer.ofResult .ofUnit (Stream.setPosition p s)
  | .skip count => Answer.ofResult .ofUnit (Stream.skip count s)
  | .rewind count => Answer.ofResult .ofUnit (Stream.rewind count s)
  | .alignBits => Answer.ofResult .ofUnit (Stream.alignBits s)
  | .readBytes count => Answer.ofResult .block (Stream.readBytes count s)
  | .readExact count => Answer.ofResult .bytes (Stream.readExact count s)
  | .readVector count => Answer.ofResult .bytes (Stream.readBytes count s)
  | .readRemaining => Answer.ofResult .bytes (Stream.readRemaining s)
  | .contents => Answer.ofResult .bytes (Stream.contents s)
  | .writeBytes bytes => Answer.ofResult .ofUnit (Stream.writeBytes bytes s)
  | .readInt format => Answer.ofResult .number (Stream.readInt format s)
  | .readIntOrZero format => Answer.ofResult .number (Stream.readIntOrZero format s)
  | .writeInt format value => Answer.ofResult .ofUnit (Stream.writeInt format value s)
  | .readTextFixed count => Answer.ofResult .text (Stream.readTextFixed count s)
  | .readText => Answer.ofResult .text (Stream.readText s)
  | .writeText text => Answer.ofResult .ofUnit (Stream.writeText text s)
  | .writeTextFixed text count => Answer.ofResult .ofUnit (Stream.writeTextFixed text count s)
  | .writeToAlign alignment b => Answer.ofResult .ofUnit (Stream.writeToAlign alignment b s)
  | .readBits order width => Answer.ofResult .ofNat (Stream.readBits order width s)
  | .standardRead count => Answer.ofStandard .block (Stream.Standard.read count s)
  | .standardReadFull count => Answer.ofStandard .bytes (Stream.Standard.readFull count s)
  | .standardReadToEnd => Answer.ofStandard .bytes (Stream.Standard.readToEnd s)
  | .standardWrite bytes => Answer.ofStandard .ofNat (Stream.Standard.write bytes s)
  | .standardWriteAll bytes => Answer.ofStandard .ofUnit (Stream.Standard.writeAll bytes s)
  | .standardFlush => (.done, s)
  | .standardSeek anchor distance =>
    Answer.ofStandard .ofNat (Stream.Standard.seek anchor distance s)

end Action

namespace Session

/-- One cursor, over the whole of `source`. -/
def start (source : Source) : Session := ⟨[source], [⟨0, .root⟩]⟩

/-- The stream of cursor `number`. -/
def stream? (s : Session) (number : Nat) : Option Stream := do
  let placed ← s.cursors[number]?
  let source ← s.sources[placed.source]?
  return ⟨source, placed.cursor⟩

/-- Puts the stream of cursor `number` back. -/
def putStream (s : Session) (number : Nat) (stream : Stream) : Session :=
  match s.cursors[number]? with
  | none => s
  | some placed =>
    { sources := s.sources.set placed.source stream.source
      cursors := s.cursors.set number { placed with cursor := stream.cursor } }

/-- Appends a cursor on source `source`. -/
def place (s : Session) (source : Nat) (cursor : Cursor) : Answer × Session :=
  (.cursor s.cursors.length, { s with cursors := s.cursors ++ [⟨source, cursor⟩] })

/-- Appends a cursor at the start of a new source. -/
def placeNew (s : Session) (source : Source) : Answer × Session :=
  place { s with sources := s.sources ++ [source] } s.sources.length .root

def make (s : Session) (number : Nat) (home : Nat) (stream : Stream) :
    Derivation → Answer × Session
  | .slice lower upper =>
    match stream.slice lower upper with
    | .ok view => s.place home view.cursor
    | .error e => (.failed e, s)
  | .sliceRemaining =>
    match stream.sliceRemaining with
    | .ok view => s.place home view.cursor
    | .error e => (.failed e, s)
  | .readStream count =>
    match Stream.readStream count stream with
    | .ok view after => (s.putStream number after).place home view.cursor
    | .error e after => (.failed e, s.putStream number after)
  | .shared => s.place home .root
  | .memory => s.placeNew .empty
  | .bytes content => s.placeNew (.ofBytes content)

/-- Bytes are copied in blocks of this size. -/
def copyBlock : Nat := 4096

/--
Moves at most `rounds` blocks from cursor `giver` to cursor `taker`, and yields how
many bytes were moved. A block that was read and could not be written is consumed.
-/
def copy (taker giver : Nat) : (rounds moved : Nat) → Session → Except IoError Nat × Session
  | 0, moved, s => (.ok moved, s)
  | rounds + 1, moved, s =>
    match s.stream? giver with
    | none => (.ok moved, s)
    | some source =>
      match Stream.readBytes copyBlock source with
      | .error e after => (.error e, s.putStream giver after)
      | .ok [] after => (.ok moved, s.putStream giver after)
      | .ok block after =>
        let s := s.putStream giver after
        match s.stream? taker with
        | none => (.ok moved, s)
        | some target =>
          match Stream.writeBytes block target with
          | .error e after => (.error e, s.putStream taker after)
          | .ok () after => copy taker giver rounds (moved + block.length) (s.putStream taker after)

def report (s : Session) (number : Nat) (answer : Answer) : Report :=
  match s.cursors[number]? with
  | some placed => (answer, placed.cursor.position, placed.cursor.pending.count)
  | none => (.noCursor, 0, 0)

mutual

/-- One operation on cursor `number`. -/
def answer (number : Nat) : Op → Session → Answer × Session
  | .act action, s =>
    match s.stream? number with
    | none => (.noCursor, s)
    | some stream =>
      let (answer, after) := action.run stream
      (answer, s.putStream number after)
  | .make derivation, s =>
    match s.cursors[number]?, s.stream? number with
    | some placed, some stream => s.make number placed.source stream derivation
    | _, _ => (.noCursor, s)
  | .copyFrom other, s =>
    match s.stream? number, s.stream? other with
    | some _, some source =>
      match copy number other (source.remaining + 1) 0 s with
      | (.ok moved, after) => (.ofNat moved, after)
      | (.error e, after) => (.failed e, after)
    | _, _ => (.noCursor, s)
  | .keepPosition ops, s =>
    match s.stream? number with
    | none => (.noCursor, s)
    | some before =>
      let (inner, after) := answers number ops s
      match after.stream? number with
      | none => (.steps inner, after)
      | some stream => (.steps inner, after.putStream number (stream.seek before.position))

/-- Operations on cursor `number` one after another, each with its report. -/
def answers (number : Nat) : List Op → Session → List Report × Session
  | [], s => ([], s)
  | op :: rest, s =>
    let (first, after) := answer number op s
    let (others, last) := answers number rest after
    (after.report number first :: others, last)

end

/-- One operation on cursor `number`, with its report. -/
def step (s : Session) (number : Nat) (op : Op) : Report × Session :=
  let (first, after) := answer number op s
  (after.report number first, after)

/-- Operations on any cursors, in order. -/
def run : Session → List (Nat × Op) → List Report × Session
  | s, [] => ([], s)
  | s, (number, op) :: rest =>
    let (first, after) := s.step number op
    let (others, last) := run after rest
    (first :: others, last)

end Session

/--
Writes everything left in a stream on another source, and yields how much that was. That stream is
not used again.
-/
def Stream.writeStream (giver : Stream) : StreamM Nat := fun taker =>
  let both : Session :=
    ⟨[taker.source, giver.source], [⟨0, taker.cursor⟩, ⟨1, giver.cursor⟩]⟩
  let (result, after) := both.copy 0 1 (giver.remaining + 1) 0
  let last := (after.stream? 0).getD taker
  match result with
  | .ok moved => .ok moved last
  | .error e => .error e last

end PackageAssets
