import PackageAssets.Deflate.Code

/-!
# Inflating

A DEFLATE stream is a list of blocks: stored bytes, or literals and copies of
earlier output in prefix codes that are fixed or come with the block. The
loops are bounded by the number of bits, as every step takes at least one.
-/
namespace PackageAssets.Deflate

/-- The base length and the number of extra bits of each length symbol. -/
def lengthTable : List (Nat × Nat) :=
  [(3, 0), (4, 0), (5, 0), (6, 0), (7, 0), (8, 0), (9, 0), (10, 0), (11, 1), (13, 1), (15, 1),
    (17, 1), (19, 2), (23, 2), (27, 2), (31, 2), (35, 3), (43, 3), (51, 3), (59, 3), (67, 4),
    (83, 4), (99, 4), (115, 4), (131, 5), (163, 5), (195, 5), (227, 5), (258, 0), (258, 0),
    (258, 0)]

/-- The base distance and the number of extra bits of each distance symbol. -/
def distanceTable : List (Nat × Nat) :=
  [(1, 0), (2, 0), (3, 0), (4, 0), (5, 1), (7, 1), (9, 2), (13, 2), (17, 3), (25, 3), (33, 4),
    (49, 4), (65, 5), (97, 5), (129, 6), (193, 6), (257, 7), (385, 7), (513, 8), (769, 8),
    (1025, 9), (1537, 9), (2049, 10), (3073, 10), (4097, 11), (6145, 11), (8193, 12), (12289, 12),
    (16385, 13), (24577, 13), (24577, 13), (24577, 13)]

def endOfBlock : Nat := 256

def fixedLengths : List Nat :=
  List.replicate 144 8 ++ List.replicate 112 9 ++ List.replicate 24 7 ++ List.replicate 8 8

/-- The codes of a block: literals and lengths, and distances. -/
structure Codes where
  literals : Code
  distances : Code
  deriving Repr

def codesOfLengths (literals distances : List Nat) : BitsM Codes :=
  match Code.ofLengths literals, Code.ofLengths distances with
  | some l, some d => pure ⟨l, d⟩
  | _, _ => throw .codeLengths

def fixedCodes : BitsM Codes := codesOfLengths fixedLengths (List.replicate 32 5)

/-- The order in which the lengths of the code for lengths are stored. -/
def lengthOrder : List Nat := [16, 17, 18, 0, 8, 7, 9, 6, 10, 5, 11, 4, 12, 3, 13, 2, 14, 1, 15]

/-- Reads `count` fields of three bits. -/
def smallFields : (count : Nat) → BitsM (List Nat)
  | 0 => pure []
  | count + 1 => do
    let n ← field 3
    let others ← smallFields count
    return n :: others

/-- Reads code lengths in runs until there are `wanted`, in at most `rounds` runs. -/
def runLengths (code : Code) (wanted : Nat) :
    (rounds : Nat) → (found : Array Nat) → BitsM (Array Nat)
  | 0, found => pure found
  | rounds + 1, found =>
    if wanted ≤ found.size then pure found
    else do
      let symbol ← code.readSymbol
      if symbol < 16 then runLengths code wanted rounds (found.push symbol)
      else if symbol = 16 then
        match found.back? with
        | none => throw .codeLengths
        | some last => do
          let more ← field 2
          runLengths code wanted rounds (found ++ Array.replicate (3 + more) last)
      else if symbol = 17 then do
        let more ← field 3
        runLengths code wanted rounds (found ++ Array.replicate (3 + more) 0)
      else do
        let more ← field 7
        runLengths code wanted rounds (found ++ Array.replicate (11 + more) 0)

/-- The codes stored at the start of a block. -/
def storedCodes : BitsM Codes := do
  let literalCount := 257 + (← field 5)
  let distanceCount := 1 + (← field 5)
  let lengthCount := 4 + (← field 4)
  let given ← smallFields lengthCount
  let lengths := (List.range 19).map fun symbol =>
    ((lengthOrder.zip given).lookup symbol).getD 0
  match Code.ofLengths lengths with
  | none => throw .codeLengths
  | some code => do
    let wanted := literalCount + distanceCount
    let found ← runLengths code wanted wanted #[]
    codesOfLengths (found.toList.take literalCount)
      ((found.toList.drop literalCount).take distanceCount)

/-- Repeats `length` bytes of the output from `distance` back. -/
def copyBack : (length : Nat) → (distance : Nat) → Array UInt8 → Array UInt8
  | 0, _, out => out
  | length + 1, distance, out =>
    copyBack length distance (out.push (out[out.size - distance]?.getD 0))

/-- The symbols of a block up to its end, at most `rounds` of them. -/
def blockSymbols (codes : Codes) : (rounds : Nat) → Array UInt8 → BitsM (Array UInt8)
  | 0, _ => throw .cutShort
  | rounds + 1, out => do
    let symbol ← codes.literals.readSymbol
    if symbol < endOfBlock then blockSymbols codes rounds (out.push (UInt8.ofNat symbol))
    else if symbol = endOfBlock then return out
    else
      match lengthTable[symbol - endOfBlock - 1]? with
      | none => throw .symbol
      | some (base, extra) => do
        let length := base + (← field extra)
        let far ← codes.distances.readSymbol
        match distanceTable[far]? with
        | none => throw .symbol
        | some (base, extra) => do
          let distance := base + (← field extra)
          if out.size < distance then throw .distance
          blockSymbols codes rounds (copyBack length distance out)

def storedBlock (out : Array UInt8) : BitsM (Array UInt8) := do
  align
  let length ← field 16
  let complement ← field 16
  if length + complement ≠ 65535 then throw .storedLength
  let data ← wholeBytes length
  return out ++ data.toArray

/-- One block after `out`; says whether it is the last one. -/
def block (rounds : Nat) (out : Array UInt8) : BitsM (Bool × Array UInt8) := do
  let last ← nextBit
  let kind ← field 2
  let out ← match kind with
    | 0 => storedBlock out
    | 1 => do blockSymbols (← fixedCodes) rounds out
    | 2 => do blockSymbols (← storedCodes) rounds out
    | _ => throw .blockType
  return (last, out)

/-- Blocks up to the last one, at most `blocks` of them. -/
def inflateBlocks (rounds : Nat) : (blocks : Nat) → Array UInt8 → BitsM (Array UInt8)
  | 0, _ => throw .cutShort
  | blocks + 1, out => do
    let (last, out) ← block rounds out
    if last then return out
    inflateBlocks rounds blocks out

/-- The output of the stream at the start of a source, which is left after its last bit. -/
def inflate : BitsM (Array UInt8) := fun s =>
  let rounds := s.pending.length + 8 * s.rest.length + 1
  inflateBlocks rounds rounds #[] s

end PackageAssets.Deflate
