import PackageAssets.Command.Error
import PackageAssets.Files.Basic
import PackageAssets.Format.Codec
import PackageAssets.Text.Quoted

/-!
# What commands work on

A command works on the files and writes notes and text in one order. A failed
command keeps what it wrote until then, and the files as it left them.
-/
namespace PackageAssets.Command

inductive Printed where
  | note (n : Note)
  | text (s : String)
  deriving DecidableEq, Repr

structure Console where
  files : Files
  /-- Oldest first. -/
  printed : List Printed

/-- A step of a command. -/
abbrev CommandM := EStateM Error Console

namespace Console

/-- The text a console shows when notes below a level are left out. -/
def shown (c : Console) (least : Level) : String :=
  String.join (c.printed.map fun
    | .note n => if n.shown least then n.line else ""
    | .text s => s)

def append (c : Console) (more : List Printed) : Console := { c with printed := c.printed ++ more }

end Console

def print (s : String) : CommandM Unit := fun c => .ok () (c.append [.text s])

def note (level : Level) (origin : Origin) (text : String) : CommandM Unit := fun c =>
  .ok () (c.append [.note ⟨level, origin, text⟩])

/-- Carries out work that writes notes. -/
def noted {ε α : Type} (wrap : ε → Error) (work : Noted ε α) : CommandM α := fun c =>
  match work [] with
  | .ok a notes => .ok a (c.append (notes.map .note))
  | .error e notes => .error (wrap e) (c.append (notes.map .note))

/-- Opens a file; opening is noted before it is tried. -/
def openFile (path : String) (mode : OpenMode) : CommandM Opened := do
  note .debug .files ("Opening " ++ Text.quote path ++ " in " ++ mode.name ++ " mode")
  match (← get).files.openPath path mode with
  | .error fault => throw (.io (.storage fault))
  | .ok opened => do
    modify fun c => { c with files := opened.files }
    return opened

/-- Runs a step on the start of an opened file and stores what the file then holds. -/
def onOpened {α : Type} (opened : Opened) (step : StreamM α) : CommandM α := fun c =>
  match step (Stream.onSource opened.source) with
  | .ok a after => .ok a { c with files := c.files.store opened.place after.source.content }
  | .error e after =>
    .error (.io e) { c with files := c.files.store opened.place after.source.content }

end PackageAssets.Command
