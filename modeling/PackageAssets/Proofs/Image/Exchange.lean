import PackageAssets.Image.Basic
import PackageAssets.Proofs.Bytes.Stored

/-!
# Colours in the other order

Packing and unpacking a colour are inverse. What was written in one order of
channels and is read in the other has red and blue exchanged.
-/
namespace PackageAssets

namespace Color

theorem toNat_pack (c : Color) :
    c.pack.toNat =
      c.red.toNat + 256 * (c.green.toNat + 256 * (c.blue.toNat + 256 * c.alpha.toNat)) := by
  have red := c.red.toNat_lt
  have green := c.green.toNat_lt
  have blue := c.blue.toNat_lt
  have alpha := c.alpha.toNat_lt
  simp only [pack, bytes, ByteOrder.ofLittle, UInt32.toNat_ofNat']
  omega

theorem unpack_pack (c : Color) : unpack c.pack = c := by
  have red := c.red.toNat_lt
  have green := c.green.toNat_lt
  have blue := c.blue.toNat_lt
  have alpha := c.alpha.toNat_lt
  obtain ⟨r, g, b, a⟩ := c
  simp only [unpack, toNat_pack, mk.injEq, ← UInt8.toNat_inj, UInt8.toNat_ofNat']
  dsimp only at red green blue alpha
  omega

theorem pack_unpack (cell : UInt32) : (unpack cell).pack = cell := by
  have := cell.toNat_lt
  rw [← UInt32.toNat_inj, toNat_pack]
  simp only [unpack, UInt8.toNat_ofNat']
  omega

/-- Red and blue change places. -/
def exchanged (c : Color) : Color := ⟨c.blue, c.green, c.red, c.alpha⟩

end Color

/-- A cell that was written in one order, as it is read in another. -/
def ChannelOrder.seenIn (read written : ChannelOrder) (cell : UInt32) : UInt32 :=
  if written = read then cell else (Color.unpack cell).exchanged.pack

namespace Image

/-- The same rectangle with other cells. -/
def mapCells (f : UInt32 → UInt32) (m : Image) : Image :=
  ⟨m.width, m.height, m.pixels.map f, (List.length_map f).trans m.length_pixels⟩

theorem get?_mapCells (f : UInt32 → UInt32) (m : Image) (x y : Nat) :
    (m.mapCells f).get? x y = (m.get? x y).map f := by
  unfold get? mapCells
  dsimp only
  by_cases inside : x < m.width ∧ y < m.height
  · rw [if_pos inside, if_pos inside, List.getElem?_map]
  · rw [if_neg inside, if_neg inside, Option.map_none]

theorem flatten_rows (m : Image) : m.rows.flatten = m.pixels := by
  rw [rows, flatten_blocks, Nat.mul_comm, ← m.length_pixels, List.take_length]

theorem length_rows (m : Image) : m.rows.length = m.height := length_blocks _ _ _

theorem length_of_mem_rows {m : Image} {row : List UInt32} (h : row ∈ m.rows) :
    row.length = m.width := by
  have enough : m.height * m.width ≤ m.pixels.length :=
    Nat.le_of_eq ((Nat.mul_comm _ _).trans m.length_pixels.symm)
  exact length_of_mem_blocks enough h

/-- A cell stands in its row. -/
theorem get?_of_rows {m : Image} {x y : Nat} {row : List UInt32} (here : m.rows[y]? = some row) :
    m.get? x y = row[x]? := by
  obtain ⟨inside, rfl⟩ := List.getElem?_eq_some_iff.mp here
  rw [length_rows] at inside
  have wide := length_of_mem_rows (List.getElem_mem (n := y) (by rwa [length_rows]))
  by_cases left : x < m.width
  · rw [get?, if_pos ⟨left, inside⟩]
    simp only [rows, blocks_eq_map, List.getElem_map, List.getElem_range, List.getElem?_take,
      if_pos left, List.getElem?_drop]
  · rw [get?, if_neg fun both => left both.1, List.getElem?_eq_none (by omega)]

theorem of_ofPixels? {width height : Nat} {pixels : List UInt32} {m : Image}
    (made : ofPixels? width height pixels = some m) :
    m.width = width ∧ m.height = height ∧ m.pixels = pixels := by
  unfold ofPixels? at made
  split at made
  · cases made
    exact ⟨rfl, rfl, rfl⟩
  · cases made

/-- An image made of rows of its width has just these rows. -/
theorem rows_of_ofPixels? {width height : Nat} {parts : List (List UInt32)}
    (sized : ∀ part ∈ parts, part.length = width) (count : parts.length = height) {m : Image}
    (made : ofPixels? width height parts.flatten = some m) :
    m.width = width ∧ m.height = height ∧ m.rows = parts := by
  subst count
  unfold ofPixels? at made
  split at made
  · cases made
    refine ⟨rfl, rfl, ?_⟩
    have cut := blocks_flatten_append sized []
    rwa [List.append_nil] at cut
  · cases made

/-- Upside down, the rows stand in the opposite order. -/
theorem rows_flipY (m : Image) : m.flipY.rows = m.rows.reverse := by
  have sized : ∀ part ∈ m.rows.reverse, part.length = m.width := fun part member =>
    length_of_mem_rows (List.mem_reverse.mp member)
  have cut := blocks_flatten_append sized []
  rwa [List.append_nil, List.length_reverse, length_rows] at cut

theorem get?_flipY (m : Image) (x : Nat) {y : Nat} (low : y < m.height) :
    m.flipY.get? x y = m.get? x (m.height - 1 - y) := by
  have count := m.length_rows
  obtain ⟨row, there⟩ : ∃ row, m.rows[m.height - 1 - y]? = some row :=
    ⟨_, List.getElem?_eq_getElem (by omega)⟩
  have here : m.flipY.rows[y]? = some row := by
    rw [rows_flipY, List.getElem?_reverse (by omega), count, there]
  rw [get?_of_rows here, get?_of_rows there]

end Image

end PackageAssets
