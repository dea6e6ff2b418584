import PackageAssets.Command.Arguments
import PackageAssets.Image.Options

/-!
# Requests

A request is a task and the level from which notes are shown. The level may be
asked for before the name of the task or among its own arguments. Images read
and written by the program have red first unless asked otherwise.
-/
namespace PackageAssets.Command

inductive Task where
  | probe (files : List String)
  /-- Show a PSF table, perhaps with its records. -/
  | table (file : String) (records : Bool)
  | convert (input output : String) (decoder : DecoderOptions) (encoder : EncoderOptions)
  deriving DecidableEq, Repr

structure Request where
  least : Level
  task : Task
  deriving DecidableEq, Repr

inductive TaskName where
  | probe
  | table
  | convert
  deriving DecidableEq, Repr

def TaskName.text : TaskName → String
  | probe => "probe"
  | table => "sfo"
  | convert => "convert"

namespace TaskName

def all : List TaskName := [probe, table, convert]

def ofText? (text : String) : Option TaskName := all.find? (·.text = text)

end TaskName

def Task.name : Task → TaskName
  | probe _ => .probe
  | table .. => .table
  | convert .. => .convert

def flag (name : String) (setting : Setting) : Switch := ⟨name, none, .sets setting⟩

/-- The switches every task has. -/
def commonSwitches : List Switch :=
  [⟨"help", some 'h', .help⟩, flag "debug" (.level .debug), flag "trace" (.level .trace),
    flag "warn" (.level .warn), flag "info" (.level .info)]

def convertSwitches : List Switch :=
  [⟨"input", some 'i', .takes fun path => some (.input path)⟩,
    ⟨"output", some 'o', .takes fun path => some (.output path)⟩,
    flag "bgra" .bgra, flag "from-bgra" .fromBgra, flag "strict" .strict,
    flag "no-crc" .withoutChecksums,
    ⟨"level", none, .takes fun n => (signedUpTo? EncoderOptions.highestLevel n).map .compression⟩,
    ⟨"max-width", none, .takes fun n => (count? n).map .maxWidth⟩,
    ⟨"max-height", none, .takes fun n => (count? n).map .maxHeight⟩]

namespace TaskName

def switches : TaskName → List Switch
  | probe => commonSwitches
  | table => flag "entries" .records :: commonSwitches
  | convert => convertSwitches ++ commonSwitches

/-- How many operands a task takes at most. -/
def room : TaskName → Option Nat
  | probe => none
  | table => some 1
  | convert => some 0

end TaskName

/-- What a setting changes for a reader. -/
def Setting.onDecoder (options : DecoderOptions) : Setting → DecoderOptions
  | maxWidth n => { options with maxWidth := n }
  | maxHeight n => { options with maxHeight := n }
  | strict => { options with strict := true }
  | withoutChecksums => { options with confirmChecksums := false }
  | fromBgra => { options with order := .bgra }
  | _ => options

/-- What a setting changes for a writer. -/
def Setting.onEncoder (options : EncoderOptions) : Setting → EncoderOptions
  | bgra => { options with order := .bgra }
  | compression n => options.withLevel n
  | _ => options

def Setting.input? : Setting → Option String
  | input path => some path
  | _ => none

def Setting.output? : Setting → Option String
  | output path => some path
  | _ => none

def Setting.level? : Setting → Option Level
  | level least => some least
  | _ => none

def startDecoder : DecoderOptions := { DecoderOptions.usual with order := .rgba }

def startEncoder : EncoderOptions := { order := .rgba, level := 6 }

namespace Given

def values (given : Given) : List Setting := given.settings.map (·.2)

def decoder (given : Given) : DecoderOptions := given.values.foldl Setting.onDecoder startDecoder

def encoder (given : Given) : EncoderOptions := given.values.foldl Setting.onEncoder startEncoder

/-- The task of a name, if all it needs was given. -/
def task? (given : Given) : TaskName → Option Task
  | .probe => if given.operands = [] then none else some (.probe given.operands)
  | .table =>
    match given.operands with
    | [file] => some (.table file (given.values.contains .records))
    | _ => none
  | .convert =>
    match given.values.findSome? Setting.input?, given.values.findSome? Setting.output? with
    | some input, some output => some (.convert input output given.decoder given.encoder)
    | _, _ => none

end Given

/-- Levels in the order in which one wins over the others. -/
def levelPrecedence : List Level := [.debug, .trace, .warn, .info]

/-- The level asked for; warnings and errors are always shown. -/
def chosenLevel (settings : List Setting) : Level :=
  (levelPrecedence.find? (settings.filterMap Setting.level?).contains).getD .warn

/-- The task in the arguments behind its name, and what they set. -/
def scanTask (name : TaskName) (arguments : List String) : Except Usage (Task × List Setting) :=
  match scan name.switches name.room arguments .empty with
  | .error usage => .error usage
  | .ok given =>
    match given.task? name with
    | some task => .ok (task, given.values)
    | none => .error .invalid

/-- Asking for help in words: alone, or about one task. -/
def helpOn : List String → Usage
  | [] => .help
  | topic :: more =>
    if more = [] ∧ (topic = "help" ∨ (TaskName.ofText? topic).isSome) then .help else .invalid

/-- Reads the arguments of the program. -/
def Request.ofArguments (arguments : List String) : Except Usage Request :=
  let leading := arguments.takeWhile looksLikeSwitch
  match scan commonSwitches (some 0) leading .empty, arguments.drop leading.length with
  | .error usage, _ => .error usage
  | .ok _, [] => .error .invalid
  | .ok given, word :: rest =>
    if leading.contains "--" then .error .invalid
    else if word = "help" then .error (helpOn rest)
    else match TaskName.ofText? word with
      | none => .error .invalid
      | some name =>
        match scanTask name rest with
        | .error usage => .error usage
        | .ok (task, settings) => .ok ⟨chosenLevel (given.values ++ settings), task⟩

end PackageAssets.Command
