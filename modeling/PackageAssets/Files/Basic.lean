import PackageAssets.Files.Path
import PackageAssets.Stream.Source

/-!
# Files

A file system says for every place whether a directory or a file stands
there. A path is walked part by part from the working directory; every part
but the last must lead through a directory. Opening a file yields its place
and a source over its bytes, and what is written to the source is stored at
that place again.
-/
namespace PackageAssets

/-- The parts that lead to a place from the working directory, or from a first part `/`. -/
abbrev Place := List String

inductive Entry where
  | directory
  | file (content : List UInt8)
  deriving DecidableEq, Repr

structure Files where
  find? : Place → Option Entry
  /-- The furthest position the disk admits. -/
  furthest : Nat

inductive OpenMode where
  /-- An existing file, for reading. -/
  | read
  /-- An existing file, for reading and writing. -/
  | readWrite
  /-- A new file, or an existing one that is emptied. -/
  | create
  deriving DecidableEq, Repr

def OpenMode.name : OpenMode → String
  | read => "Read"
  | readWrite => "ReadWrite"
  | create => "Create"

/-- A file that was opened: where it is, its bytes, and the files after opening it. -/
structure Opened where
  place : Place
  source : Source
  files : Files

namespace Files

/-- The working directory, with no files in it. -/
def empty (furthest : Nat) : Files :=
  ⟨fun place => if place = [] then some .directory else none, furthest⟩

/-- Puts a file at a place. -/
def store (files : Files) (place : Place) (content : List UInt8) : Files :=
  { files with find? := fun other =>
    if other = place then some (.file content) else files.find? other }

/-- Makes a place a directory. -/
def makeDirectory (files : Files) (place : Place) : Files :=
  { files with find? := fun other =>
    if other = place then some .directory else files.find? other }

def root : String := "/"

/-- Whether a place is a directory. Those above the working directory are. -/
def isDirectory (files : Files) (place : Place) : Bool :=
  place = [root] || place.all (· = Path.up) || files.find? place = some .directory

/-- The directory above a directory. -/
def above (place : Place) : Place :=
  if place = [root] then place
  else if place.all (· = Path.up) then place ++ [Path.up]
  else place.dropLast

/-- The longest name of a file, in bytes. -/
def longestName : Nat := 255

/-- The longest path, in bytes. -/
def longestPath : Nat := 4095

/-- Where a part leads from a directory. -/
def next (here : Place) (part : String) : Place :=
  if Path.stays part then here
  else if part = Path.up then above here
  else here ++ [part]

/-- Walks on from a place, which must be a directory while there are parts left. -/
def walk (files : Files) : Place → List String → Except StorageFault Place
  | here, [] => .ok here
  | here, part :: rest =>
    if files.isDirectory here then
      if longestName < part.utf8ByteSize then .error .nameTooLong
      else walk files (next here part) rest
    else match files.find? here with
      | some _ => .error .notADirectory
      | none => .error .notFound

/-- Where the walk of a path starts. -/
def startOf (path : String) : Place := if path.toList.head? = some '/' then [root] else []

/-- The place a path leads to, whether or not anything stands there. -/
def locate (files : Files) (path : String) : Except StorageFault Place :=
  if path.toList.contains '\x00' then .error .badName
  else if path = "" then .error .notFound
  else if longestPath < path.utf8ByteSize then .error .nameTooLong
  else files.walk (startOf path) (Path.parts path)

/-- Whether a path leads to a file or a directory. -/
def contains (files : Files) (path : String) : Bool :=
  match files.locate path with
  | .ok place => files.isDirectory place || (files.find? place).isSome
  | .error _ => false

/-- Opens what stands at a place. -/
def openAt (files : Files) (place : Place) (mode : OpenMode) : Except StorageFault Opened :=
  if files.isDirectory place then
    match mode with
    | .read => .ok ⟨place, ⟨[], .directory⟩, files⟩
    | _ => .error .isADirectory
  else match mode, files.find? place with
    | .create, _ => .ok ⟨place, .ofFile [] true files.furthest, files.store place []⟩
    | _, some (.file content) => .ok ⟨place, .ofFile content (mode ≠ .read) files.furthest, files⟩
    | _, _ => .error .notFound

def openPath (files : Files) (path : String) (mode : OpenMode) : Except StorageFault Opened :=
  match files.locate path with
  | .ok place => files.openAt place mode
  | .error fault => .error fault

/-- Makes directories along a walk and yields where it ends. -/
def lay : Files → Place → List String → Files × Place
  | files, here, [] => (files, here)
  | files, here, part :: rest => lay (files.makeDirectory here) (next here part) rest

/-- Puts a file where a path leads, with the directories on the way. -/
def withFile (files : Files) (path : String) (content : List UInt8) : Files :=
  let (files, place) := lay files (startOf path) (Path.parts path)
  files.store place content

/-- Makes a directory where a path leads, and those on the way. -/
def withDirectory (files : Files) (path : String) : Files :=
  let (files, place) := lay files (startOf path) (Path.parts path)
  files.makeDirectory place

/-- The content of the file a path leads to. -/
def content? (files : Files) (path : String) : Option (List UInt8) :=
  match files.locate path with
  | .ok place =>
    match files.find? place with
    | some (.file content) => some content
    | _ => none
  | .error _ => none

theorem find?_store (files : Files) (place other : Place) (content : List UInt8) :
    (files.store place content).find? other =
      if other = place then some (.file content) else files.find? other := rfl

end Files

end PackageAssets
