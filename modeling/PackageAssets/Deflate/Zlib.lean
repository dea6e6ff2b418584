import PackageAssets.Bytes.Blocks
import PackageAssets.Bytes.Order
import PackageAssets.Checksum.Adler32
import PackageAssets.Deflate.Inflate

/-!
# Zlib streams

A zlib stream is a DEFLATE stream between a header of two bytes and the
Adler-32 of its output. What follows it is left unread. `store` is the
simplest writer: it cuts the data into stored blocks.
-/
namespace PackageAssets.Zlib

open Deflate

/-- The least number of bytes of a stream. -/
def shortest : Nat := 6

/-- The method is DEFLATE, the window no larger than 32 KiB, and the header a multiple of 31. -/
def headerOk (method flags : UInt8) : Bool :=
  method.toNat % 16 = 8 && method.toNat / 16 ≤ 7 && (method.toNat * 256 + flags.toNat) % 31 = 0

def checksumOk (after : List UInt8) (out : List UInt8) : Except InflateError Unit :=
  if after.length < 4 then .error .cutShort
  else if ByteOrder.big.read (after.take 4) = Adler32.ofBytes out then .ok ()
  else .error .checksum

/-- The data in a zlib stream. The checksum is looked at only on request. -/
def inflate (confirm : Bool) (data : List UInt8) : Except InflateError (List UInt8) :=
  if data.length < shortest then .error .cutShort
  else
    match data with
    | method :: flags :: body =>
      if headerOk method flags then
        match Deflate.inflate (.ofBytes body) with
        | .error e _ => .error e
        | .ok out s =>
          let out := out.toList
          if confirm then (checksumOk s.rest out).map fun _ => out else .ok out
      else .error .header
    | _ => .error .cutShort

/-- The most bytes a stored block holds. -/
def largestStored : Nat := 65535

def storedBlock (last : Bool) (data : List UInt8) : List UInt8 :=
  (if last then 1 else 0) :: ByteOrder.little.write 2 data.length ++
    ByteOrder.little.write 2 (largestStored - data.length) ++ data

/-- Stored blocks, the last one marked. -/
def storedBlocks : List (List UInt8) → List UInt8
  | [] => storedBlock true []
  | [data] => storedBlock true data
  | data :: rest => storedBlock false data ++ storedBlocks rest

/-- A zlib stream of `data`. -/
def store (data : List UInt8) : List UInt8 :=
  let count := (data.length + largestStored - 1) / largestStored
  [0x78, 0x01] ++ storedBlocks (blocks largestStored count data) ++
    ByteOrder.big.write 4 (Adler32.ofBytes data)

end PackageAssets.Zlib
