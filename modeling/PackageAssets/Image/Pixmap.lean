import PackageAssets.Bytes.Count
import PackageAssets.Image.Basic

/-!
# Images as they are held

The cells of an image are held in a vector, and only the way in which the image
is made says that they fill its rectangle. How many they are and where they
stand is counted in machine words, which wrap around. An index outside of the
cells ends the program.
-/
namespace PackageAssets

/-- How the cells of an image end the program. -/
inductive Overrun where
  /-- An index is outside of them. -/
  | index
  /-- There are more than a vector can hold. -/
  | capacity
  deriving DecidableEq, Repr

structure Pixmap where
  width : Nat
  height : Nat
  pixels : List UInt32
  deriving DecidableEq, Repr

namespace Image

/-- An image as it is held. -/
def pixmap (m : Image) : Pixmap := ⟨m.width, m.height, m.pixels⟩

@[simp] theorem width_pixmap (m : Image) : m.pixmap.width = m.width := rfl

@[simp] theorem height_pixmap (m : Image) : m.pixmap.height = m.height := rfl

@[simp] theorem pixels_pixmap (m : Image) : m.pixmap.pixels = m.pixels := rfl

end Image

namespace Pixmap

/-- A number in a machine word. -/
def word (n : Nat) : Nat := n % Count.bound

/-- The bytes of a vector are a signed number of 64 bits, and a cell takes four of them. -/
def mostCells : Nat := 0x7FFFFFFFFFFFFFFF / 4

/-- A transparent black image. -/
def new (width height : Nat) : Except Overrun Pixmap :=
  let count := word (width * height)
  if count ≤ mostCells then .ok ⟨width, height, List.replicate count 0⟩ else .error .capacity

def ofPixels? (width height : Nat) (pixels : List UInt32) : Option Pixmap := do
  let count ← Count.mul? width height
  if count = pixels.length then some ⟨width, height, pixels⟩ else none

/-- The image, if its cells fill it. -/
def toImage? (m : Pixmap) : Option Image := Image.ofPixels? m.width m.height m.pixels

/-- Where a cell stands. -/
def place (m : Pixmap) (x y : Nat) : Nat := word (y * m.width + x)

def get (m : Pixmap) (x y : Nat) : Except Overrun (Option UInt32) :=
  if x < m.width ∧ y < m.height then
    match m.pixels[m.place x y]? with
    | some cell => .ok (some cell)
    | none => .error .index
  else .ok none

/-- Sets a cell, and says whether it lies inside. -/
def set (m : Pixmap) (x y : Nat) (cell : UInt32) : Except Overrun (Bool × Pixmap) :=
  if x < m.width ∧ y < m.height then
    if m.place x y < m.pixels.length then
      .ok (true, { m with pixels := m.pixels.set (m.place x y) cell })
    else .error .index
  else .ok (false, m)

/-- The cells from `start` up to `stop`. -/
def span (cells : List UInt32) (start stop : Nat) : Except Overrun (List UInt32) :=
  if start ≤ stop ∧ stop ≤ cells.length then .ok ((cells.take stop).drop start)
  else .error .index

def row (m : Pixmap) (y : Nat) : Except Overrun (Option (List UInt32)) :=
  if y < m.height then do
    let cells ← span m.pixels (word (y * m.width)) (word ((y + 1) * m.width))
    return some cells
  else .ok none

/-- The rows from top to bottom. -/
def rows (m : Pixmap) : Except Overrun (List (List UInt32)) := do
  let found ← (List.range m.height).mapM m.row
  return found.filterMap id

/-- Puts other cells in the place of a row of as many cells. -/
def putRow (m : Pixmap) (y : Nat) (cells : List UInt32) : Pixmap :=
  { m with pixels := m.pixels.take (word (y * m.width)) ++ cells ++
      m.pixels.drop (word ((y + 1) * m.width)) }

/-- Writes to the cells of a row, each by its place and what it holds. -/
def editRow (m : Pixmap) (y : Nat) (edit : Nat → UInt32 → UInt32) :
    Except Overrun (Bool × Pixmap) := do
  match ← m.row y with
  | some cells => return (true, m.putRow y (cells.mapIdx edit))
  | none => return (false, m)

/-- Puts `cells` in row `y`, and says whether they fit it. -/
def setRow (m : Pixmap) (y : Nat) (cells : List UInt32) : Except Overrun (Bool × Pixmap) := do
  match ← m.row y with
  | some before =>
    if before.length = cells.length then return (true, m.putRow y cells) else return (false, m)
  | none => return (false, m)

/-- Exchanges row `top` with row `bottom`, where the cells are cut. -/
def exchangeRows (width top bottom : Nat) (cells : List UInt32) :
    Except Overrun (List UInt32) :=
  let cut := word (bottom * width)
  let start := word (top * width)
  let stop := word ((top + 1) * width)
  let upper := cells.take cut
  let lower := cells.drop cut
  if cut ≤ cells.length ∧ start ≤ stop ∧ stop ≤ upper.length ∧ width ≤ lower.length then
    .ok (upper.take start ++ lower.take width ++ upper.drop stop ++
      ((upper.take stop).drop start ++ lower.drop width))
  else .error .index

/-- Exchanges the rows from `top` up to, but not with, row `bottom`, from both ends. -/
def exchangeEnds (width top bottom : Nat) (cells : List UInt32) : Except Overrun (List UInt32) :=
  if top + 1 < bottom then do
    let exchanged ← exchangeRows width top (bottom - 1) cells
    exchangeEnds width (top + 1) (bottom - 1) exchanged
  else .ok cells
termination_by bottom - top

/-- Turns the image upside down, in place. -/
def flipY (m : Pixmap) : Except Overrun Pixmap :=
  if m.width = 0 then .ok m
  else do
    let pixels ← exchangeEnds m.width 0 m.height m.pixels
    return { m with pixels }

/-- The cells as red, green, blue and alpha bytes. -/
def rgbaBytes (m : Pixmap) : List UInt8 := m.pixels.flatMap fun cell => (Color.unpack cell).bytes

end Pixmap

end PackageAssets
