import PackageAssets.Stream.Buffer
import PackageAssets.Stream.Handle

/-!
# Accesses to a source

The operations of a source at absolute positions, on a buffer in memory and on a
file handle. Every access has an answer, and leaves something behind whether or
not it failed.
-/
namespace PackageAssets

inductive Access where
  | read (position count : Nat)
  | write (position : Nat) (bytes : List UInt8)
  | length
  deriving DecidableEq, Repr

namespace Access

/-- The answer to an access. -/
inductive Reply where
  | bytes (data : List UInt8)
  | written
  | length (n : Nat)
  | failed (e : IoError)
  deriving DecidableEq, Repr

def Reply.ofResult {σ α : Type} (reply : α → Reply) : EStateM.Result IoError σ α → Reply × σ
  | .ok a s => (reply a, s)
  | .error e s => (.failed e, s)

/-- Accesses one after another. -/
def runAll {σ α : Type} (step : α → σ → Reply × σ) : List α → σ → List Reply × σ
  | [], s => ([], s)
  | access :: rest, s =>
    let (first, after) := step access s
    let (others, last) := runAll step rest after
    (first :: others, last)

end Access

open Access (Reply)

def Buffer.access : Access → Buffer → Reply × Buffer
  | .read position count, b => (.bytes (b.readAt position count), b)
  | .write position data, b =>
    match b.writeAt position data with
    | .ok after => (.written, after)
    | .error e => (.failed e, b)
  | .length, b => (.length b.length, b)

/-- An access, with the grants for its calls. -/
def Handle.access : Access × List Grant → Handle → Reply × Handle
  | (.read position count, grants), h =>
    Reply.ofResult .bytes (readAt grants position count h)
  | (.write position data, grants), h =>
    Reply.ofResult (fun _ => .written) (writeAt grants position data h)
  | (.length, _), h => (.length h.length, h)

end PackageAssets
