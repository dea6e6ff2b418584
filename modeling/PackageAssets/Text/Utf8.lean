/-!
# Text in bytes

Text is stored as UTF-8. Bytes that are not UTF-8 are still read: every
longest beginning of a character that breaks off, and every byte that begins
none, counts as one replacement character. Reading is one pass of a machine
over the bytes; `Place` is where it stands between two of them.
-/
namespace PackageAssets.Text

/-- The bytes of a text. -/
def utf8 (text : String) : List UInt8 := text.toList.flatMap String.utf8EncodeChar

def replacement : Char := Char.ofNat 0xFFFD

inductive Place where
  | between
  /-- Inside a character: bytes `owed`, the bits so far, and the range of the next byte. -/
  | within (owed value : Nat) (low high : UInt8)
  deriving Repr

/-- The first byte of a character: the characters it completes and where it leads. -/
def first (b : UInt8) : List Char × Place :=
  let n := b.toNat
  if b < 0x80 then ([Char.ofNat n], .between)
  else if b < 0xC2 then ([replacement], .between)
  else if b < 0xE0 then ([], .within 1 (n % 32) 0x80 0xBF)
  else if b = 0xE0 then ([], .within 2 0 0xA0 0xBF)
  else if b = 0xED then ([], .within 2 13 0x80 0x9F)
  else if b < 0xF0 then ([], .within 2 (n % 16) 0x80 0xBF)
  else if b = 0xF0 then ([], .within 3 0 0x90 0xBF)
  else if b < 0xF4 then ([], .within 3 (n % 8) 0x80 0xBF)
  else if b = 0xF4 then ([], .within 3 4 0x80 0x8F)
  else ([replacement], .between)

def step : Place → UInt8 → List Char × Place
  | .between, b => first b
  | .within owed value low high, b =>
    if low ≤ b ∧ b ≤ high then
      let value := value * 64 + b.toNat % 64
      if owed ≤ 1 then ([Char.ofNat value], .between)
      else ([], .within (owed - 1) value 0x80 0xBF)
    else
      let (chars, next) := first b
      (replacement :: chars, next)

/-- One more byte, with the characters so far in reverse. -/
def feed (soFar : List Char × Place) (b : UInt8) : List Char × Place :=
  let (chars, next) := step soFar.2 b
  (chars.reverse ++ soFar.1, next)

/-- A character that breaks off at the end counts as a replacement character. -/
def close : List Char × Place → List Char
  | (chars, .between) => chars.reverse
  | (chars, .within ..) => (replacement :: chars).reverse

/-- The text in `bytes`, with replacement characters where they are not UTF-8. -/
def ofBytes (bytes : List UInt8) : String := String.ofList (close (bytes.foldl feed ([], .between)))

/-- The bytes before the first zero, or all of them. -/
def untilZero (bytes : List UInt8) : List UInt8 := bytes.takeWhile (· ≠ 0)

end PackageAssets.Text
