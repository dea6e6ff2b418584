import PackageAssets.Bytes.Blocks
import PackageAssets.Image.Color

/-!
# Images

An image is a rectangle of cells, stored row by row from the top. The number
of cells is part of the type, so every cell inside the rectangle is there.
-/
namespace PackageAssets

structure Image where
  width : Nat
  height : Nat
  pixels : List UInt32
  length_pixels : pixels.length = width * height
  deriving DecidableEq

namespace Image

def ofPixels? (width height : Nat) (pixels : List UInt32) : Option Image :=
  if h : pixels.length = width * height then some ⟨width, height, pixels, h⟩ else none

def get? (m : Image) (x y : Nat) : Option UInt32 :=
  if x < m.width ∧ y < m.height then m.pixels[y * m.width + x]? else none

/-- The rows from top to bottom. -/
def rows (m : Image) : List (List UInt32) := blocks m.width m.height m.pixels

theorem length_flatten_reverse_rows (m : Image) :
    m.rows.reverse.flatten.length = m.width * m.height := by
  have hall := List.length_flatten (L := m.rows)
  rw [rows, flatten_blocks, List.length_take, m.length_pixels] at hall
  rw [List.length_flatten, List.map_reverse, List.sum_reverse, rows, ← hall,
    Nat.mul_comm m.height, Nat.min_self]

/-- The image upside down. -/
def flipY (m : Image) : Image :=
  ⟨m.width, m.height, m.rows.reverse.flatten, m.length_flatten_reverse_rows⟩

end Image

end PackageAssets
