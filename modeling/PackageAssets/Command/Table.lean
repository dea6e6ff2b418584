import PackageAssets.Command.Console
import PackageAssets.Psf.Json

/-!
# Showing a PSF table

The pairs of a table as JSON, with the kind of the package they describe and,
on request, the header and the records they were read from.
-/
namespace PackageAssets.Command

def recordsField : Psf.Contents → List (String × Json)
  | ⟨some header, records⟩ =>
    [("header", header.json), ("entries", .list (records.map Psf.Record.json))]
  | ⟨none, _⟩ => []

/-- A table and the records it was read from. -/
def readTable : Psf.DecoderM (Psf.Dictionary × Psf.Contents) := do
  let dictionary ← Psf.decode
  return (dictionary, ← Reading.soFar)

def tableJson (path : String) (withRecords : Bool) : CommandM Json := do
  let opened ← openFile path .read
  let start := Psf.Decoder.start (Stream.onSource opened.source)
  let (dictionary, contents) ← noted .table (Noted.ofReading id readTable start)
  note .info .tables s!"Read {dictionary.size} values from {path}"
  return .object ([("file", .text path), ("kind", dictionary.packageKind.json),
    ("values", dictionary.json)] ++ if withRecords then recordsField contents else [])

def printTable (path : String) (withRecords : Bool) : CommandM Unit := do
  let json ← tableJson path withRecords
  print (json.pretty ++ "\n")

end PackageAssets.Command
