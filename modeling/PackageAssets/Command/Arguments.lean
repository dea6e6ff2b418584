import PackageAssets.Bytes.Count
import PackageAssets.Log.Note

/-!
# Arguments

The arguments of a command are switches and operands. A switch has a long
name and perhaps a letter; it takes a value or none, and is given at most once.
A value stands behind an equals sign, directly behind the letter, or in the
next argument, which then must not begin like a switch. Letters without a value
may share one dash. After a lone `--` everything is an operand. The first fault
from the left decides, and asking for help counts as one.
-/
namespace PackageAssets.Command

/-- Why arguments do not say what to do. -/
inductive Usage where
  | help
  | invalid
  deriving DecidableEq, Repr

/-- What a switch asks for. -/
inductive Setting where
  | level (least : Level)
  | input (path : String)
  | output (path : String)
  | maxWidth (n : Nat)
  | maxHeight (n : Nat)
  | strict
  | withoutChecksums
  | fromBgra
  | bgra
  | compression (n : Nat)
  | records
  deriving DecidableEq, Repr

inductive Effect where
  | help
  | sets (setting : Setting)
  | takes (read : String → Option Setting)

structure Switch where
  name : String
  letter : Option Char
  effect : Effect

/-- The switches and operands so far, oldest first. -/
structure Given where
  settings : List (String × Setting)
  operands : List String
  deriving DecidableEq, Repr

/-! ## Numbers -/

def decimal? : List Char → Option Nat
  | [] => none
  | digits =>
    if digits.all Char.isDigit then
      some (digits.foldl (fun n c => 10 * n + (c.toNat - '0'.toNat)) 0)
    else none

/-- A count in decimal digits, perhaps behind a plus sign. -/
def count? (text : String) : Option Nat :=
  let digits := match text.toList with
    | '+' :: rest => rest
    | chars => chars
  match decimal? digits with
  | some n => if n < Count.bound then some n else none
  | none => none

/-- A number up to `largest` in decimal digits, perhaps behind a sign. -/
def signedUpTo? (largest : Nat) (text : String) : Option Nat :=
  match text.toList with
  | '-' :: digits => if decimal? digits = some 0 then some 0 else none
  | '+' :: digits => (decimal? digits).filter (· ≤ largest)
  | digits => (decimal? digits).filter (· ≤ largest)

/-! ## Scanning -/

namespace Given

def empty : Given := ⟨[], []⟩

/-- Adds what a switch asks for, if the switch was not given before. -/
def add (given : Given) (switch : Switch) (setting : Setting) : Except Usage Given :=
  if given.settings.any (·.1 = switch.name) then .error .invalid
  else .ok { given with settings := given.settings ++ [(switch.name, setting)] }

def addValue (given : Given) (switch : Switch) (read : String → Option Setting)
    (value : String) : Except Usage Given :=
  match read value with
  | some setting => given.add switch setting
  | none => .error .invalid

/-- Adds operands, of which there may be at most `room` if it is given. -/
def addOperands (given : Given) (room : Option Nat) (more : List String) :
    Except Usage Given :=
  let operands := given.operands ++ more
  match room with
  | some limit => if limit < operands.length then .error .invalid else .ok { given with operands }
  | none => .ok { given with operands }

end Given

/-- Switches that were read, and one that still awaits its value. -/
abbrev Scanned := Except Usage (Given × Option Switch)

/-- A switch with the value attached to it, if there is one. -/
def useSwitch (switch : Switch) (value : Option String) (given : Given) : Scanned :=
  match switch.effect, value with
  | .help, none => .error .help
  | .sets setting, none => (given.add switch setting).map (·, none)
  | .takes read, some text => (given.addValue switch read text).map (·, none)
  | .takes _, none => .ok (given, some switch)
  | _, some _ => .error .invalid

/-- A switch by its name, with the value behind an equals sign. -/
def useLong (switches : List Switch) (text : List Char) (given : Given) : Scanned :=
  let name := text.takeWhile (· ≠ '=')
  let value := match text.drop name.length with
    | [] => none
    | _ :: rest => some (String.ofList rest)
  match switches.find? (·.name.toList = name) with
  | some switch => useSwitch switch value given
  | none => .error .invalid

/-- The value behind a letter, perhaps after an equals sign. -/
def attachedValue : List Char → Option String
  | [] => none
  | '=' :: rest => some (String.ofList rest)
  | rest => some (String.ofList rest)

/-- Switches by their letters. The first that takes a value takes the rest. -/
def useLetters (switches : List Switch) : List Char → Given → Scanned
  | [], given => .ok (given, none)
  | c :: rest, given =>
    match switches.find? (·.letter = some c) with
    | none => .error .invalid
    | some switch =>
      match switch.effect with
      | .takes _ => useSwitch switch (attachedValue rest) given
      | _ =>
        match useSwitch switch none given with
        | .error usage => .error usage
        | .ok (given, _) => useLetters switches rest given

def looksLikeSwitch (text : String) : Bool :=
  match text.toList with
  | '-' :: _ :: _ => true
  | _ => false

/-- One argument other than a lone `--`, which is not the value of a switch. -/
def useArgument (switches : List Switch) (room : Option Nat) (argument : String)
    (given : Given) : Scanned :=
  match argument.toList with
  | '-' :: '-' :: text => useLong switches text given
  | '-' :: c :: letters => useLetters switches (c :: letters) given
  | _ => (given.addOperands room [argument]).map (·, none)

/-- Reads arguments behind those that were read before. -/
def scan (switches : List Switch) (room : Option Nat) : List String → Given → Except Usage Given
  | [], given => .ok given
  | argument :: rest, given =>
    if argument = "--" then given.addOperands room rest
    else match useArgument switches room argument given with
      | .error usage => .error usage
      | .ok (given, none) => scan switches room rest given
      | .ok (given, some switch) =>
        match rest with
        | [] => .error .invalid
        | value :: others =>
          if looksLikeSwitch value then .error .invalid
          else match useSwitch switch (some value) given with
            | .error usage => .error usage
            | .ok (given, _) => scan switches room others given

end PackageAssets.Command
