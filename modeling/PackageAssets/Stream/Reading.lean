import PackageAssets.Log.Note
import PackageAssets.Stream.Read

/-!
# Reading a format

A reader of a format works on a stream, keeps what it has found, and writes
notes. Its steps may fail; a failed step keeps the stream where it stopped,
what was found until then, and the notes.
-/
namespace PackageAssets

structure Reading (σ : Type) where
  stream : Stream
  found : σ
  /-- The notes so far, oldest first. -/
  notes : List Note

/-- A step of a reader. -/
abbrev ReadingM (ε σ : Type) := EStateM ε (Reading σ)

namespace Reading

variable {ε σ α : Type}

def start (stream : Stream) (found : σ) : Reading σ := ⟨stream, found, []⟩

/-- A step on the stream. -/
def onStream [OfIoError ε] (step : StreamM α) : ReadingM ε σ α := fun r =>
  match step r.stream with
  | .ok a stream => .ok a { r with stream }
  | .error e stream => .error (OfIoError.ofIo e) { r with stream }

/-- What was found so far. -/
def soFar : ReadingM ε σ σ := fun r => .ok r.found r

def modifyFound (f : σ → σ) : ReadingM ε σ Unit := fun r => .ok () { r with found := f r.found }

def note (level : Level) (origin : Origin) (text : String) : ReadingM ε σ Unit := fun r =>
  .ok () { r with notes := r.notes ++ [⟨level, origin, text⟩] }

/-- The outcome of a step, with the notes it wrote. -/
def outcome (step : ReadingM ε σ α) (r : Reading σ) : Except ε α × List Note :=
  match step r with
  | .ok a after => (.ok a, after.notes)
  | .error e after => (.error e, after.notes)

end Reading

end PackageAssets
