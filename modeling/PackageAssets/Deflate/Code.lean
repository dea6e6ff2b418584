import PackageAssets.Deflate.BitSource

/-!
# Prefix codes

A prefix code is given by the length of each symbol's code word. Words of one
length are consecutive numbers in the order of their symbols, and shorter
words come first, so the symbols of each length are all a reader needs. The
words must fill the tree, with two exceptions: a code with no words, and one
with a single word of one bit; both read one symbol from any bit.
-/
namespace PackageAssets.Deflate

inductive Code where
  /-- The symbols with words of length 1, 2, and so on. -/
  | tree (levels : List (Array Nat))
  /-- Every bit is this symbol. -/
  | constant (symbol : Nat)
  deriving Repr

namespace Code

-- powers of numbers are the built-in ones, whatever a library brings
attribute [local instance (20000)] instPowNat

def longestWord : Nat := 15

/-- The symbols whose words have `width` bits. -/
def symbolsOfLength (lengths : List Nat) (width : Nat) : List Nat :=
  lengths.zipIdx.filterMap fun (length, symbol) => if length = width then some symbol else none

/-- The share of the tree that words of these lengths take, in words of the longest length. -/
def spaceUsed (lengths : List Nat) : Nat :=
  lengths.foldl (fun sum width => if width = 0 then sum else sum + 2 ^ (longestWord - width)) 0

def ofLengths (lengths : List Nat) : Option Code :=
  let used := spaceUsed lengths
  let levels := (List.range longestWord).map fun i => (symbolsOfLength lengths (i + 1)).toArray
  if used = 2 ^ longestWord then some (.tree levels)
  else if used = 0 then some (.constant 0)
  else
    match lengths.filter (· ≠ 0), symbolsOfLength lengths 1 with
    | [_], [symbol] => some (.constant symbol)
    | _, _ => none

/--
Follows the tree down. `word` is the word read so far and `first` the number of
the first word of its length that belongs to no shorter symbol.
-/
def descend : (levels : List (Array Nat)) → (word first : Nat) → BitsM Nat
  | [], _, _ => throw .symbol
  | level :: deeper, word, first => do
    let b ← nextBit
    let word := 2 * word + b.toNat
    let first := 2 * first
    match level[word - first]? with
    | some symbol => return symbol
    | none => descend deeper word (first + level.size)

def readSymbol : Code → BitsM Nat
  | tree levels => descend levels 0 0
  | constant symbol => do
    let _ ← nextBit
    return symbol

end Code

end PackageAssets.Deflate
