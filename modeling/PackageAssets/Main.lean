import PackageAssets.Command.Run

/-!
# The program

Reads the files that the arguments name, runs the program on them, prints its
text, and writes the file that it changed.
-/
namespace PackageAssets

/-- The files a task reads, and those it may write. -/
def Command.Task.paths : Command.Task → List String
  | .probe files => files
  | .table file _ => [file]
  | .convert input output _ _ => [input, output]

/-- The directory part of a path, if it has one. -/
def Path.directory? (path : String) : Option String :=
  match Path.parts path with
  | [] | [_] => none
  | parts => some ("/".intercalate parts.dropLast)

/-- The code with which reading a directory fails. -/
def directoryCode : UInt32 := 21

/-- What stands at a path, as far as it can be read. -/
def entryAt (path : String) : IO (Option Entry) := do
  try
    let content ← IO.FS.readBinFile path
    return some (.file content.toList)
  catch
    | .inappropriateType _ code _ =>
      return if code = directoryCode then some .directory else none
    | _ => return none

/-- Adds what stands at a path, or the directory it would stand in. -/
def loadPath (files : Files) (path : String) : IO Files := do
  match ← entryAt path with
  | some (.file content) => return files.withFile path content
  | some .directory => return files.withDirectory path
  | none =>
    match Path.directory? path with
    | none => return files
    | some directory =>
      match ← entryAt (directory ++ "/.") with
      | some .directory => return files.withDirectory directory
      | _ => return files

def loadPaths : List String → Files → IO Files
  | [], files => return files
  | path :: rest, files => do loadPaths rest (← loadPath files path)

/-- Writes the files at some paths that changed. -/
def storeChanges (before after : Files) : List String → IO Unit
  | [] => return
  | path :: rest => do
    match after.content? path with
    | some content =>
      if before.content? path ≠ some content then
        IO.FS.writeBinFile path (ByteArray.mk content.toArray)
    | none => pure ()
    storeChanges before after rest

/-- The furthest position on a disk whose blocks of 4096 bytes have numbers of 32 bits. -/
def furthestOnDisk : Nat := 0xFFFFFFFF * 4096

/-- The paths that the arguments name. -/
def namedPaths (arguments : List String) : List String :=
  match Command.Request.ofArguments arguments with
  | .ok request => request.task.paths
  | .error _ => []

end PackageAssets

open PackageAssets in
def main (arguments : List String) : IO UInt32 := do
  let paths := namedPaths arguments
  let files ← loadPaths paths (.empty furthestOnDisk)
  let outcome := Command.run files arguments
  IO.print outcome.text
  if outcome.code = 2 then IO.eprint Command.help
  storeChanges files outcome.files paths
  return outcome.code.toUInt32
