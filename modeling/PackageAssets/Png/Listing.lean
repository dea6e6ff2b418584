import PackageAssets.Bytes.Order
import PackageAssets.Checksum.Crc32
import PackageAssets.Png.Format

/-!
# Chunks as they stand in a file

A file that starts with the signature is read as a list of chunks, for
display. Nothing is judged but whether the stored checksums are right.
-/
namespace PackageAssets.Png

structure ListedChunk where
  name : List UInt8
  payload : List UInt8
  checksum : UInt32
  deriving DecidableEq, Repr

namespace ListedChunk

def checksumOk (c : ListedChunk) : Bool := c.checksum = Crc32.ofBytes (c.name ++ c.payload)

/-- The bytes of a chunk. -/
def bytes (c : ListedChunk) : List UInt8 :=
  ByteOrder.big.write 4 c.payload.length ++ c.name ++ c.payload ++
    ByteOrder.big.write 4 c.checksum.toNat

end ListedChunk

/-- At most `rounds` complete chunks at the start of `data`, onto those so far in reverse. -/
def chunksOnto : (rounds : Nat) → List UInt8 → List ListedChunk → List ListedChunk
  | 0, _, done => done.reverse
  | rounds + 1, data, done =>
    let length := ByteOrder.big.read (data.take 4)
    let rest := data.drop 8
    if rest.length < length + 4 then done.reverse
    else
      let chunk : ListedChunk := ⟨(data.drop 4).take 4, rest.take length,
        UInt32.ofNat (ByteOrder.big.read ((rest.drop length).take 4))⟩
      chunksOnto rounds (rest.drop (length + 4)) (chunk :: done)

/-- The chunks of a PNG, if `data` is one. -/
def listChunks? (data : List UInt8) : Option (List ListedChunk) :=
  if data.take signature.length = signature then
    some (chunksOnto data.length (data.drop signature.length) [])
  else none

end PackageAssets.Png
