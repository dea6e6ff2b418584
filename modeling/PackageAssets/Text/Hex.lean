/-!
# Numbers in base sixteen

Bytes are shown as two lower case digits each. Numbers are shown in upper
case, padded with zeros on the left to a least number of digits.
-/
namespace PackageAssets.Hex

def lowerDigit (n : Nat) : Char := Nat.digitChar n

def byte (b : UInt8) : List Char := [lowerDigit (b.toNat / 16), lowerDigit (b.toNat % 16)]

def bytes (data : List UInt8) : String := String.ofList (data.flatMap byte)

/-- Upper case digits, at least `width` of them. -/
def upper (width n : Nat) : String :=
  let digits := (Nat.toDigits 16 n).map Char.toUpper
  String.ofList (List.replicate (width - digits.length) '0' ++ digits)

def digitValue? (c : Char) : Option Nat :=
  if '0' ≤ c ∧ c ≤ '9' then some (c.toNat - '0'.toNat)
  else if 'a' ≤ c ∧ c ≤ 'f' then some (c.toNat - 'a'.toNat + 10)
  else if 'A' ≤ c ∧ c ≤ 'F' then some (c.toNat - 'A'.toNat + 10)
  else none

/-- Reads two digits a byte, onto the bytes so far in reverse. -/
def parseOnto : List UInt8 → List Char → Option (List UInt8)
  | done, [] => some done.reverse
  | _, [_] => none
  | done, high :: low :: rest => do
    let h ← digitValue? high
    let l ← digitValue? low
    parseOnto (UInt8.ofNat (16 * h + l) :: done) rest

def parse? (text : String) : Option (List UInt8) := parseOnto [] text.toList

end PackageAssets.Hex
