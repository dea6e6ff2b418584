/-!
# Failures of sources and cursors

A failure is a value that names its cause and the numbers involved; its
wording is `IoError.message`. `ErrorClass` is the coarse division a caller
acts on: another format may fit, the data is cut short, a caller asked for
something outside its window, or the storage itself failed.
-/
namespace PackageAssets

inductive ErrorClass where
  | format
  | truncated
  | bounds
  | io
  deriving DecidableEq, Repr

namespace ErrorClass

def all : List ErrorClass := [format, truncated, bounds, io]

/-- Whether another format may still fit the data. -/
def mayTryAnotherFormat : ErrorClass → Bool
  | format => true
  | _ => false

end ErrorClass

/-- What went wrong in the storage under a source. -/
inductive StorageFault where
  | notFound
  | notADirectory
  | isADirectory
  | readOnly
  | badPosition
  | badName
  | nameTooLong
  /-- A vector would become longer than any can be. It stands for the end of the program. -/
  | capacityOverflow
  deriving DecidableEq, Repr

def StorageFault.message : StorageFault → String
  | notFound => "No such file or directory (os error 2)"
  | notADirectory => "Not a directory (os error 20)"
  | isADirectory => "Is a directory (os error 21)"
  | readOnly => "Bad file descriptor (os error 9)"
  | badPosition => "Invalid argument (os error 22)"
  | badName => "file name contained an unexpected NUL byte"
  | nameTooLong => "File name too long (os error 36)"
  | capacityOverflow => "capacity overflow"

inductive IoError where
  | storage (fault : StorageFault)
  /-- A number does not fit the field it is written to. -/
  | integerRange
  | notEnough (expected found : Nat)
  | outOfBounds (start stop limit : Nat)
  | bitWidth (width : Nat)
  | misuse (reason : String)
  deriving DecidableEq, Repr

namespace IoError

def kind : IoError → ErrorClass
  | storage _ => .io
  | notEnough .. => .truncated
  | outOfBounds .. => .bounds
  | bitWidth _ => .format
  | integerRange => .bounds
  | misuse _ => .bounds

/-- The text of a failure, ended by a line break. -/
def message : IoError → String
  | storage fault => "Underlying I/O error " ++ fault.message ++ "\n"
  | integerRange => "Cannot convert to int number too large to fit in target type\n"
  | notEnough expected found => s!"Not enough bytes, expected {expected} but found {found}\n"
  | outOfBounds start stop limit =>
    s!"Range {start}..{stop} is out of bounds for a stream of {limit} bytes\n"
  | bitWidth width => s!"Unsupported bit width {width}, at most 32 bits can be read\n"
  | misuse reason => "Generic I/O error: " ++ reason ++ "\n"

def beforeStart : IoError := misuse "Cannot rewind before the start of the stream"

def positionOverflow : IoError := misuse "Write position overflows"

end IoError

/-- Failures that a failure of the stream can be one of. -/
class OfIoError (ε : Type) where
  ofIo : IoError → ε

end PackageAssets
