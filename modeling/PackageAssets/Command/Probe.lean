import PackageAssets.Command.Console
import PackageAssets.Psf.Decoder
import PackageAssets.Text.Json

/-!
# Probing files

A probed file is an image of a known format, a PSF table, or unknown. Images
are asked for their size whatever it is. Files that do not exist are skipped;
a file that begins like a known format and cannot be read stops the command.
-/
namespace PackageAssets.Command

inductive Finding where
  | image (info : ImageInfo)
  /-- A PSF table of that many pairs. -/
  | table (pairs : Nat)
  deriving DecidableEq, Repr

structure ProbedFile where
  path : String
  size : Nat
  finding : Finding
  deriving DecidableEq, Repr

def Finding.field : Finding → String × Json
  | image info => ("image", .object [("format", .text info.format.name),
      ("width", .number info.width), ("height", .number info.height)])
  | table pairs => ("psf_entries", .number pairs)

def ProbedFile.json (p : ProbedFile) : Json :=
  .object [("file", .text p.path), ("size", .number p.size), p.finding.field]

/-- Only headers are read, so any size is accepted. -/
def probeOptions : DecoderOptions :=
  { DecoderOptions.usual with maxWidth := Count.top, maxHeight := Count.top }

/-- The number of pairs a PSF table claims in its header. -/
def pairCount : Psf.DecoderM Nat := do
  Psf.decodeHeaders
  match (← Reading.soFar).header with
  | some header => return header.pairCount
  | none => return 0

/-- What a stream holds, if it is recognised. -/
def identify (data : Stream) : CommandM (Option Finding) := do
  let (format, notes) := ImageFormat.guess data
  noted .image (Noted.write notes)
  match format with
  | some format => return some (.image (← noted .image (format.readInfo data probeOptions)))
  | none =>
    if Psf.probe data then
      match data.wholeSlice with
      | .error e => throw (.io e)
      | .ok view =>
        let start := Psf.Decoder.start view
        return some (.table (← noted .table (Noted.ofReading id pairCount start)))
    else return none

def probeFile (path : String) : CommandM (Option ProbedFile) := do
  let opened ← openFile path .read
  let data := Stream.onSource opened.source
  match ← identify data with
  | some finding => return some ⟨path, data.length, finding⟩
  | none => return none

/-- Probes files one after another and prints what each one holds. -/
def probeFiles : List String → CommandM Unit
  | [] => pure ()
  | path :: rest => do
    if (← get).files.contains path then
      note .info .probing ("Probing " ++ path)
      match ← probeFile path with
      | some probed => print (probed.json.pretty ++ "\n")
      | none => note .warn .probing ("Unknown format for " ++ path)
    else note .warn .probing (path ++ " does not exist, skipping")
    probeFiles rest

end PackageAssets.Command
