import PackageAssets.Text.Printable

/-!
# Quoted text

Notes show text and file names between quotation marks. Characters that have a
short escape or cannot be seen on their own are written with a backslash; an
apostrophe cannot end the text and stands for itself.
-/
namespace PackageAssets.Text

/-- A character by its number. -/
def escapedNumber (c : Char) : List Char :=
  ['\\', 'u', '\x7b'] ++ Nat.toDigits 16 c.toNat ++ ['\x7d']

def escaped (c : Char) : List Char :=
  if c = '\x00' then ['\\', '0']
  else if c = '\t' then ['\\', 't']
  else if c = '\r' then ['\\', 'r']
  else if c = '\n' then ['\\', 'n']
  else if c = '\\' then ['\\', '\\']
  else if c = '"' then ['\\', '"']
  else if drawnOnPrevious c ∨ ¬isPrintable c then escapedNumber c
  else [c]

def quote (s : String) : String := String.ofList (['"'] ++ s.toList.flatMap escaped ++ ['"'])

end PackageAssets.Text
