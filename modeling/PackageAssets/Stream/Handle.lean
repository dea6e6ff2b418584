import PackageAssets.Stream.Source

/-!
# File handles

A file is a run of bytes with an offset at which the next access starts. The
system may be interrupted before it answers a call, or answer it for fewer bytes
than it was asked for; a call is then made again for the rest. A file source goes
to its place before every access, so the offset an earlier one left does not
matter.
-/
namespace PackageAssets

/-- How the system answers a call to read or write at least one byte. -/
inductive Grant where
  | interrupted
  /-- The call is answered for one byte and at most `more` others. -/
  | atMost (more : Nat)
  deriving DecidableEq, Repr

structure Handle where
  content : List UInt8
  offset : Nat
  writable : Bool
  /-- The furthest offset the file system admits. -/
  furthest : Nat
  deriving DecidableEq

/-- A step on a handle. -/
abbrev HandleM := EStateM IoError Handle

namespace Handle

def seek (position : Nat) : HandleM Unit := fun h =>
  if h.furthest < position then .error (.storage .badPosition) h
  else .ok () { h with offset := position }

/-- One call: the bytes at the offset, up to `count` of them. -/
def read (count : Nat) : HandleM (List UInt8) := fun h =>
  let bytes := Source.bytesAt h.content h.offset count
  .ok bytes { h with offset := h.offset + bytes.length }

/-- One call: puts bytes at the offset. A gap before it is filled with zeros. -/
def write (bytes : List UInt8) : HandleM Unit := fun h =>
  if h.writable then
    .ok () { h with
      content := Source.overwrite h.content h.offset bytes
      offset := h.offset + bytes.length }
  else .error (.storage .readOnly) h

/-- Reads on until `count` bytes are there or the file ends. After the grants every call is answered
in full. -/
def fill : List Grant → (count : Nat) → HandleM (List UInt8)
  | [], count => read count
  | .interrupted :: grants, count => fill grants count
  | .atMost more :: grants, count => do
    let bytes ← read (min count (more + 1))
    if bytes = [] then return []
    return bytes ++ (← fill grants (count - bytes.length))

/-- Writes on until no bytes are left. -/
def writeAll : List Grant → (bytes : List UInt8) → HandleM Unit
  | [], bytes => if bytes = [] then pure () else write bytes
  | .interrupted :: grants, bytes => writeAll grants bytes
  | .atMost more :: grants, bytes =>
    if bytes = [] then pure ()
    else do
      write (bytes.take (more + 1))
      writeAll grants (bytes.drop (more + 1))

def readAt (grants : List Grant) (position count : Nat) : HandleM (List UInt8) := do
  seek position
  fill grants count

def writeAt (grants : List Grant) (position : Nat) (bytes : List UInt8) : HandleM Unit := do
  seek position
  writeAll grants bytes

def length (h : Handle) : Nat := h.content.length

/-- A newly opened handle. -/
def opened (content : List UInt8) (writable : Bool) (furthest : Nat) : Handle :=
  ⟨content, 0, writable, furthest⟩

end Handle

end PackageAssets
