/-!
# Scanline filters

A filter stores each byte of a row as its difference from a prediction, made
from the byte one pixel to the left, the byte above and the byte above on the
left. Bytes outside the image count as zero. A row is reconstructed from left
to right, so that predictions see bytes already reconstructed; all arithmetic
is modulo 256.
-/
namespace PackageAssets.Png

inductive Filter where
  | none
  | sub
  | up
  | average
  | paeth
  deriving DecidableEq, Repr

/-- The nearest to `left + above - corner` of the three; ties go in the order given. -/
def paeth (left above corner : UInt8) : UInt8 :=
  let p : Int := (left.toNat : Int) + above.toNat - corner.toNat
  let toLeft := (p - left.toNat).natAbs
  let toAbove := (p - above.toNat).natAbs
  let toCorner := (p - corner.toNat).natAbs
  if toLeft ≤ toAbove ∧ toLeft ≤ toCorner then left
  else if toAbove ≤ toCorner then above
  else corner

namespace Filter

def ofNumber? (n : UInt8) : Option Filter :=
  if n = 0 then some none
  else if n = 1 then some sub
  else if n = 2 then some up
  else if n = 3 then some average
  else if n = 4 then some paeth
  else Option.none

def number : Filter → UInt8
  | none => 0
  | sub => 1
  | up => 2
  | average => 3
  | paeth => 4

def name : Filter → String
  | none => "None"
  | sub => "Sub"
  | up => "Up"
  | average => "Average"
  | paeth => "Paeth"

def predict (f : Filter) (left above corner : UInt8) : UInt8 :=
  match f with
  | none => 0
  | sub => left
  | up => above
  | average => UInt8.ofNat ((left.toNat + above.toNat) / 2)
  | paeth => Png.paeth left above corner

/--
A row in the making: the reconstructed bytes of the last pixel, the bytes above
them, oldest first, and all reconstructed bytes in reverse.
-/
structure Progress where
  left : List UInt8
  corner : List UInt8
  done : List UInt8

/-- Reconstructs one byte, stored as `raw` under `above`. -/
def advance (f : Filter) (p : Progress) (raw above : UInt8) : Progress :=
  let b := raw + f.predict (p.left.headD 0) above (p.corner.headD 0)
  ⟨p.left.tail ++ [b], p.corner.tail ++ [above], b :: p.done⟩

/-- Reconstructs bytes from stored bytes paired with the bytes above them. -/
def reconstruct (f : Filter) (components : Nat) (stored : List (UInt8 × UInt8)) : List UInt8 :=
  let zeros := List.replicate components 0
  (stored.foldl (fun p pair => f.advance p pair.1 pair.2) ⟨zeros, zeros, []⟩).done.reverse

/--
The contents of `current` after a row stored as `raw` under the row `above` was
reconstructed into it. As many bytes are made as all rows involved have; later
bytes of `current` stay. With pixels of no bytes, the left neighbour of a byte
is what `current` held in its place.
-/
def apply (f : Filter) (components : Nat) (above raw current : List UInt8) : List UInt8 :=
  match f with
  | none => raw
  | _ =>
    let above := if f = sub then List.replicate raw.length 0 else above
    let stored := (raw.zip above).take current.length
    let made :=
      if components = 0 then
        List.zipWith (fun pair old => pair.1 + f.predict old pair.2 pair.2) stored current
      else f.reconstruct (min components stored.length) stored
    made ++ current.drop stored.length

end Filter

end PackageAssets.Png
