import PackageAssets.Command.Convert
import PackageAssets.Command.Probe
import PackageAssets.Command.Request
import PackageAssets.Command.Table

/-!
# Running the program

The program turns its arguments and the files into an exit code, the text it
prints, and the files afterwards. It answers 0 when the task was done, 255 when
it failed, and 2 when the arguments ask for none.
-/
namespace PackageAssets.Command

structure Outcome where
  code : UInt8
  text : String
  files : Files

def Task.run : Task → CommandM Unit
  | probe files => probeFiles files
  | table file records => printTable file records
  | convert input output decoder encoder => do
    note .info .conversion "Creating workflows from input"
    let _ ← convertFile input output decoder encoder

/-- What is noted before a task starts. -/
def openingNotes (least : Level) : List Printed :=
  [.note ⟨.info, .levels, "Initialized logger"⟩,
    .note ⟨.info, .levels, "Log level :" ++ least.name⟩]

/-- What is printed about a task that failed. -/
def failureReport (name : TaskName) (e : Error) : List Printed :=
  [.text "\n",
    .note ⟨.error, .program, " Could not complete " ++ name.text ++ ", reason " ++ e.message⟩,
    .text "\n"]

def help : String :=
  "Inspect and convert the images and param.sfo files of vita packages\n\n" ++
  "  probe FILES...               print the format and size of files\n" ++
  "  sfo [--entries] FILE         print the values of a param.sfo file\n" ++
  "  convert -i FILE -o FILE      write an image as png\n" ++
  "    --bgra, --from-bgra        blue first in the output, in the input\n" ++
  "    --level N                  compression from 0 to 9\n" ++
  "    --strict, --no-crc         refuse doubtful files, skip checksums\n" ++
  "    --max-width N, --max-height N\n" ++
  "  --debug, --trace, --warn, --info\n"

def Request.run (request : Request) (files : Files) : Outcome :=
  match request.task.run ⟨files, openingNotes request.least⟩ with
  | .ok () c => ⟨0, c.shown request.least, c.files⟩
  | .error e c =>
    ⟨255, (c.append (failureReport request.task.name e)).shown request.least, c.files⟩

/-- The program on its arguments. -/
def run (files : Files) (arguments : List String) : Outcome :=
  match Request.ofArguments arguments with
  | .error .help => ⟨0, help, files⟩
  | .error .invalid => ⟨2, "", files⟩
  | .ok request => request.run files

end PackageAssets.Command
