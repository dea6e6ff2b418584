import Mathlib.Data.List.Induction
import PackageAssets.Image.Pixmap
import PackageAssets.Proofs.Image.Exchange

/-!
# Changes to an image

Cells are set one by one or row by row, and the image is turned upside down. As long
as the number of its cells is a machine word, whatever is done to an image it keeps
its rectangle, and all that is looked up inside lies in its cells. The rows are
exchanged in place, from both ends to the middle; what comes out is the image with
the opposite order of rows. A rectangle with more cells is made with too few of
them, and then a lookup inside ends the program.
-/
namespace PackageAssets

namespace Pixmap

/-- The lookups find these cells. -/
def Shows (m : Pixmap) (cells : Nat → Nat → Option UInt32) : Prop :=
  ∀ x y, m.get x y = .ok (cells x y)

/-- As an image is to be: its cells fill its rectangle, and what is looked up inside is there. -/
structure Shaped (width height : Nat) (m : Pixmap) : Prop where
  wide : m.width = width
  high : m.height = height
  count : m.pixels.length = width * height
  get : ∃ cells, m.Shows cells ∧ ∀ x y, (cells x y).isSome ↔ x < width ∧ y < height
  row : ∀ y, y < height → ∃ row, m.row y = .ok (some row) ∧ row.length = width
  noRow : ∀ y, height ≤ y → m.row y = .ok none
  rows : ∃ rows, m.rows = .ok rows ∧ rows.length = height ∧ ∀ y, m.row y = .ok rows[y]?

end Pixmap

inductive Change where
  | set (x y : Nat) (cell : UInt32)
  | editRow (y : Nat) (edit : Nat → UInt32 → UInt32)
  | setRow (y : Nat) (cells : List UInt32)
  | flip

namespace Change

/-- The answer to a change that may be refused, and the image after it. -/
def apply : Change → Pixmap → Except Overrun (Bool × Pixmap)
  | set x y cell, m => m.set x y cell
  | editRow y edit, m => m.editRow y edit
  | setRow y cells, m => m.setRow y cells
  | flip, m => m.flipY.map (true, ·)

/-- Changes one after another. -/
def applyAll : List Change → Pixmap → Except Overrun (List Bool × Pixmap)
  | [], m => return ([], m)
  | change :: changes, m => do
    let (answer, after) ← change.apply m
    let (answers, last) ← applyAll changes after
    return (answer :: answers, last)

/-- The change lies inside a rectangle, and a row has its width. -/
def Fits (width height : Nat) : Change → Prop
  | set x y _ => x < width ∧ y < height
  | editRow y _ => y < height
  | setRow y cells => y < height ∧ cells.length = width
  | flip => True

instance (width height : Nat) : (change : Change) → Decidable (change.Fits width height)
  | set x y _ => inferInstanceAs (Decidable (x < width ∧ y < height))
  | editRow y _ => inferInstanceAs (Decidable (y < height))
  | setRow y cells => inferInstanceAs (Decidable (y < height ∧ cells.length = width))
  | flip => .isTrue trivial

/-- What a change that fits makes of the cells of a rectangle. -/
def onCells (height : Nat) (cells : Nat → Nat → Option UInt32) :
    Change → (x y : Nat) → Option UInt32
  | set x' y' cell, x, y => if x = x' ∧ y = y' then some cell else cells x y
  | editRow y' edit, x, y => if y = y' then (cells x y).map (edit x) else cells x y
  | setRow y' row, x, y => if y = y' then row[x]? else cells x y
  | flip, x, y => if y < height then cells x (height - 1 - y) else none

/-- What a change makes of the cells of a rectangle. -/
def draw (width height : Nat) (cells : Nat → Nat → Option UInt32) (change : Change) :
    Nat → Nat → Option UInt32 :=
  if change.Fits width height then change.onCells height cells else cells

end Change


namespace Image

variable {m n : Image} {width height : Nat}

/-! ### Places -/

/-- A cell of an earlier row stands before the row. -/
theorem place_lt {x y z : Nat} (left : x < width) (above : y < z) : y * width + x < z * width := by
  have next : (y + 1) * width ≤ z * width := Nat.mul_le_mul_right width above
  rw [Nat.succ_mul] at next
  omega

theorem place_lt_length {x y : Nat} (left : x < m.width) (low : y < m.height) :
    y * m.width + x < m.pixels.length := by
  rw [m.length_pixels, Nat.mul_comm m.width]
  exact place_lt left low

/-- Cells at the same place are the same cell. -/
theorem place_inj {x y x' y' : Nat} (left : x < width) (left' : x' < width) :
    y * width + x = y' * width + x' ↔ x' = x ∧ y' = y := by
  constructor
  · intro same
    rcases Nat.lt_trichotomy y' y with above | rfl | below
    · have := place_lt left' above
      omega
    · omega
    · have := place_lt left below
      omega
  · rintro ⟨rfl, rfl⟩
    rfl

theorem get?_inside {x y : Nat} (inside : x < m.width ∧ y < m.height) :
    m.get? x y = m.pixels[y * m.width + x]? := if_pos inside

theorem get?_outside {x y : Nat} (outside : ¬(x < m.width ∧ y < m.height)) :
    m.get? x y = none := if_neg outside

theorem isSome_get? (m : Image) (x y : Nat) :
    (m.get? x y).isSome ↔ x < m.width ∧ y < m.height := by
  by_cases inside : x < m.width ∧ y < m.height
  · simp [get?_inside inside, inside, place_lt_length inside.1 inside.2]
  · simp [get?_outside inside, inside]

/-- The rows that are cut out of the cells. -/
theorem getElem?_rows (m : Image) (y : Nat) :
    m.rows[y]? =
      if y < m.height then some ((m.pixels.drop (y * m.width)).take m.width) else none := by
  rw [rows, blocks_eq_map, List.getElem?_map]
  by_cases low : y < m.height
  · rw [if_pos low, List.getElem?_range low]
    rfl
  · rw [if_neg low, List.getElem?_eq_none (by simpa using low)]
    rfl

/-- A row that is inside ends inside the cells. -/
theorem row_le {y : Nat} (low : y < m.height) : (y + 1) * m.width ≤ m.width * m.height := by
  rw [Nat.mul_comm m.width]
  exact Nat.mul_le_mul_right m.width low

/-! ### Accesses inside the cells -/

theorem word_of_le {k total : Nat} (counted : total < Count.bound) (inside : k ≤ total) :
    Pixmap.word k = k := Nat.mod_eq_of_lt (Nat.lt_of_le_of_lt inside counted)

/-- The number of cells is a machine word. -/
def Counted (m : Image) : Prop := m.width * m.height < Count.bound

theorem Counted.place_eq (counted : m.Counted) {x y : Nat} (left : x < m.width)
    (low : y < m.height) : m.pixmap.place x y = y * m.width + x := by
  have inside := place_lt_length left low
  rw [m.length_pixels] at inside
  exact word_of_le counted (Nat.le_of_lt inside)

theorem Counted.get_eq (counted : m.Counted) (x y : Nat) : m.pixmap.get x y = .ok (m.get? x y) := by
  by_cases inside : x < m.width ∧ y < m.height
  · have there := List.getElem?_eq_getElem (place_lt_length inside.1 inside.2)
    have place := counted.place_eq inside.1 inside.2
    simp only [Pixmap.get, width_pixmap, height_pixmap, pixels_pixmap, if_pos inside, place,
      get?_inside inside, there]
  · rw [get?_outside inside]
    exact if_neg inside

theorem Counted.row_eq (counted : m.Counted) (y : Nat) : m.pixmap.row y = .ok m.rows[y]? := by
  rw [getElem?_rows]
  by_cases low : y < m.height
  · have stop := row_le low
    have next : (y + 1) * m.width = y * m.width + m.width := Nat.succ_mul y m.width
    have start : y * m.width ≤ m.width * m.height := by omega
    have cut : Pixmap.span m.pixels (y * m.width) ((y + 1) * m.width) =
        .ok ((m.pixels.drop (y * m.width)).take m.width) := by
      rw [Pixmap.span, if_pos ⟨by omega, m.length_pixels ▸ stop⟩, List.drop_take, next,
        Nat.add_sub_cancel_left]
    simp only [Pixmap.row, width_pixmap, height_pixmap, pixels_pixmap, if_pos low,
      word_of_le counted start, word_of_le counted stop, cut]
    rfl
  · rw [if_neg low]
    exact if_neg low

theorem Counted.rows_eq (counted : m.Counted) : m.pixmap.rows = .ok m.rows := by
  have each : m.pixmap.row = fun y => pure m.rows[y]? := funext counted.row_eq
  have found : (List.range m.height).map (fun y => m.rows[y]?) = m.rows.map some := by
    apply List.ext_getElem
    · simp [length_rows]
    · intro y _ low
      simp [List.getElem?_eq_getElem (by simpa using low)]
  have all : (m.rows.map some).filterMap id = m.rows := by
    rw [List.filterMap_map]
    exact List.filterMap_some
  rw [Pixmap.rows, height_pixmap, each, List.mapM_pure, found]
  exact congrArg Except.ok all

theorem Counted.shaped (counted : m.Counted) : m.pixmap.Shaped m.width m.height where
  wide := rfl
  high := rfl
  count := m.length_pixels
  get := ⟨m.get?, counted.get_eq, m.isSome_get?⟩
  row y low := by
    have inside : y < m.rows.length := by rwa [length_rows]
    refine ⟨m.rows[y], ?_, length_of_mem_rows (List.getElem_mem inside)⟩
    rw [counted.row_eq, List.getElem?_eq_getElem]
  noRow y beyond := if_neg (Nat.not_lt.mpr beyond)
  rows := ⟨m.rows, counted.rows_eq, m.length_rows, counted.row_eq⟩

/-! ### Changes -/

/-- `n` is the rectangle of `m` with these cells. -/
structure Redrawn (m : Image) (cells : Nat → Nat → Option UInt32) (n : Image) : Prop where
  width : n.width = m.width
  height : n.height = m.height
  get : n.get? = cells

theorem redrawn_of_pixels {cells : Nat → Nat → Option UInt32} {pixels : List UInt32}
    (size : pixels.length = m.width * m.height)
    (inside : ∀ x y, x < m.width ∧ y < m.height → pixels[y * m.width + x]? = cells x y)
    (outside : ∀ x y, ¬(x < m.width ∧ y < m.height) → cells x y = none) :
    m.Redrawn cells ⟨m.width, m.height, pixels, size⟩ where
  width := rfl
  height := rfl
  get := by
    funext x y
    by_cases there : x < m.width ∧ y < m.height
    · exact (if_pos there).trans (inside x y there)
    · exact (if_neg there).trans (outside x y there).symm

/-- What is to come of a change: the answer whether it fits, and the cells it makes. -/
def Answers (m : Image) (change : Change) : Prop :=
  ∃ n : Image, change.apply m.pixmap = .ok (decide (change.Fits m.width m.height), n.pixmap) ∧
    (¬change.Fits m.width m.height → n = m) ∧
    m.Redrawn (change.draw m.width m.height m.get?) n

theorem answers_of_fits {change : Change} (fits : change.Fits m.width m.height)
    (done : change.apply m.pixmap = .ok (true, n.pixmap))
    (redrawn : m.Redrawn (change.onCells m.height m.get?) n) : m.Answers change := by
  refine ⟨n, by rw [done, decide_eq_true fits], absurd fits, ?_⟩
  rwa [Change.draw, if_pos fits]

theorem answers_of_not_fits {change : Change} (refused : ¬change.Fits m.width m.height)
    (done : change.apply m.pixmap = .ok (false, m.pixmap)) : m.Answers change := by
  refine ⟨m, by rw [done, decide_eq_false refused], fun _ => rfl, ?_⟩
  rw [Change.draw, if_neg refused]
  exact ⟨rfl, rfl, rfl⟩

theorem Counted.set_answers (counted : m.Counted) (x y : Nat) (cell : UInt32) :
    m.Answers (.set x y cell) := by
  by_cases fits : x < m.width ∧ y < m.height
  · have place := counted.place_eq fits.1 fits.2
    have there := place_lt_length fits.1 fits.2
    have size : (m.pixels.set (y * m.width + x) cell).length = m.width * m.height :=
      List.length_set.trans m.length_pixels
    refine answers_of_fits fits ?_ (redrawn_of_pixels size ?_ ?_)
    · simp only [Change.apply, Pixmap.set, width_pixmap, height_pixmap, pixels_pixmap,
        if_pos fits, place, if_pos there]
      rfl
    · intro x' y' there'
      have same : y * m.width + x = y' * m.width + x' ↔ x' = x ∧ y' = y :=
        place_inj fits.1 there'.1
      rw [List.getElem?_set, Change.onCells, get?_inside there']
      by_cases here : x' = x ∧ y' = y
      · rw [if_pos here, if_pos (same.mpr here), if_pos there]
      · rw [if_neg here, if_neg (mt same.mp here)]
    · intro x' y' outside
      rw [Change.onCells, get?_outside outside, if_neg]
      rintro ⟨rfl, rfl⟩
      exact outside fits
  · exact answers_of_not_fits fits (if_neg fits)

/-- Where a row was replaced, the cells of the others are where they were. -/
theorem getElem?_replaced {y : Nat} {cells : List UInt32} (low : y < m.height)
    (sized : cells.length = m.width) {x' y' : Nat} (left : x' < m.width) :
    (m.pixels.take (y * m.width) ++ cells ++
        m.pixels.drop ((y + 1) * m.width))[y' * m.width + x']? =
      if y' = y then cells[x']? else m.pixels[y' * m.width + x']? := by
  have before : (m.pixels.take (y * m.width)).length = y * m.width := by
    rw [List.length_take, m.length_pixels, Nat.mul_comm m.width]
    exact Nat.min_eq_left (Nat.mul_le_mul_right m.width (Nat.le_of_lt low))
  have next : (y + 1) * m.width = y * m.width + m.width := Nat.succ_mul y m.width
  -- a row above stands in the first part, one below in the last
  rcases Nat.lt_trichotomy y' y with above | rfl | below
  · have earlier := place_lt left above
    rw [if_neg (Nat.ne_of_lt above), List.append_assoc, List.getElem?_append_left (by omega),
      List.getElem?_take_of_lt earlier]
  · rw [if_pos rfl, List.append_assoc, List.getElem?_append_right (by omega), before,
      Nat.add_sub_cancel_left, List.getElem?_append_left (by omega)]
  · have later := Nat.mul_le_mul_right m.width below
    rw [Nat.succ_eq_add_one, next] at later
    rw [if_neg (Nat.ne_of_gt below), List.getElem?_append_right (by simp; omega),
      List.getElem?_drop, List.length_append, before]
    congr 1
    omega

theorem length_replaced {y : Nat} {cells : List UInt32} (low : y < m.height)
    (sized : cells.length = m.width) :
    (m.pixels.take (y * m.width) ++ cells ++ m.pixels.drop ((y + 1) * m.width)).length =
      m.width * m.height := by
  have stop := row_le low
  have next : (y + 1) * m.width = y * m.width + m.width := Nat.succ_mul y m.width
  simp only [List.length_append, List.length_take, List.length_drop, m.length_pixels]
  omega

/-- The same image with other cells in a row. -/
def withRow (m : Image) (y : Nat) (cells : List UInt32) (low : y < m.height)
    (sized : cells.length = m.width) : Image := ⟨m.width, m.height, _, length_replaced low sized⟩

theorem Counted.putRow_eq (counted : m.Counted) {y : Nat} {cells : List UInt32}
    (low : y < m.height) (sized : cells.length = m.width) :
    m.pixmap.putRow y cells = (m.withRow y cells low sized).pixmap := by
  have stop := row_le low
  have next : (y + 1) * m.width = y * m.width + m.width := Nat.succ_mul y m.width
  have start : y * m.width ≤ m.width * m.height := by omega
  simp only [Pixmap.putRow, width_pixmap, pixels_pixmap, word_of_le counted start,
    word_of_le counted stop]
  rfl

theorem redrawn_withRow {y : Nat} {cells : List UInt32} (low : y < m.height)
    (sized : cells.length = m.width) :
    m.Redrawn ((Change.setRow y cells).onCells m.height m.get?) (m.withRow y cells low sized) := by
  apply redrawn_of_pixels
  · intro x' y' there
    rw [getElem?_replaced low sized there.1, Change.onCells, get?_inside there]
  · intro x' y' outside
    rw [Change.onCells, get?_outside outside]
    split
    case isTrue here =>
      subst here
      exact List.getElem?_eq_none (by omega)
    · rfl

theorem Counted.setRow_answers (counted : m.Counted) (y : Nat) (cells : List UInt32) :
    m.Answers (.setRow y cells) := by
  by_cases low : y < m.height
  · have inside : y < m.rows.length := by rwa [length_rows]
    have wide : m.rows[y].length = m.width := length_of_mem_rows (List.getElem_mem inside)
    have row : m.pixmap.row y = .ok (some m.rows[y]) := by
      rw [counted.row_eq, List.getElem?_eq_getElem]
    by_cases sized : cells.length = m.width
    · refine answers_of_fits ⟨low, sized⟩ ?_ (redrawn_withRow low sized)
      simp only [Change.apply, Pixmap.setRow, row, ← counted.putRow_eq low sized]
      exact if_pos (wide.trans sized.symm)
    · refine answers_of_not_fits (fun fits => sized fits.2) ?_
      simp only [Change.apply, Pixmap.setRow, row]
      exact if_neg fun same => sized (same.symm.trans wide)
  · refine answers_of_not_fits (fun fits => low fits.1) ?_
    have none : m.pixmap.row y = .ok none := if_neg low
    simp only [Change.apply, Pixmap.setRow, none]
    rfl

theorem Counted.editRow_answers (counted : m.Counted) (y : Nat) (edit : Nat → UInt32 → UInt32) :
    m.Answers (.editRow y edit) := by
  by_cases low : y < m.height
  · have inside : y < m.rows.length := by rwa [length_rows]
    have here : m.rows[y]? = some m.rows[y] := List.getElem?_eq_getElem inside
    have wide : m.rows[y].length = m.width := length_of_mem_rows (List.getElem_mem inside)
    have row : m.pixmap.row y = .ok (some m.rows[y]) := by rw [counted.row_eq, here]
    have sized : (m.rows[y].mapIdx edit).length = m.width := List.length_mapIdx.trans wide
    obtain ⟨width, height, get⟩ := redrawn_withRow low sized
    refine answers_of_fits (n := m.withRow y _ low sized) low ?_ ⟨width, height, get.trans ?_⟩
    · simp only [Change.apply, Pixmap.editRow, row, ← counted.putRow_eq low sized]
      rfl
    · funext x' y'
      rw [Change.onCells, Change.onCells, List.getElem?_mapIdx]
      split
      case isTrue same => rw [same, get?_of_rows here]
      · rfl
  · have none : m.pixmap.row y = .ok none := if_neg low
    refine answers_of_not_fits low ?_
    simp only [Change.apply, Pixmap.editRow, none]
    rfl

/-! ### Rows exchanged in place -/

/-- Cells cut into five parts, of which the second and the fourth are rows. -/
theorem exchangeRows_append {top bottom : Nat} {front first inner last : List UInt32}
    (frontSize : front.length = top * width) (firstSize : first.length = width)
    (upperSize : (front ++ (first ++ inner)).length = bottom * width)
    (lastSize : last.length = width) (back : List UInt32)
    (counted : (front ++ (first ++ inner) ++ (last ++ back)).length < Count.bound) :
    Pixmap.exchangeRows width top bottom (front ++ (first ++ inner) ++ (last ++ back)) =
      .ok (front ++ last ++ inner ++ (first ++ back)) := by
  have nextSize : (front ++ first).length = (top + 1) * width := by
    rw [List.length_append, frontSize, firstSize, Nat.succ_mul]
  have cutInside : bottom * width ≤ (front ++ (first ++ inner) ++ (last ++ back)).length :=
    upperSize ▸ (List.prefix_append _ _).length_le
  have topInside : (top + 1) * width ≤ (front ++ (first ++ inner)).length := by
    rw [← nextSize, ← List.append_assoc]
    exact (List.prefix_append _ _).length_le
  have bottomInside : width ≤ (last ++ back).length :=
    lastSize ▸ (List.prefix_append _ _).length_le
  have order : top * width ≤ (top + 1) * width := Nat.mul_le_mul_right width (Nat.le_succ top)
  have region : ((front ++ (first ++ inner)).take ((top + 1) * width)).drop (top * width) =
      first := by
    rw [← List.append_assoc, List.take_left' nextSize, List.drop_left' frontSize]
  rw [Pixmap.exchangeRows, word_of_le counted cutInside, word_of_le counted (k := top * width)
    (by omega), word_of_le counted (k := (top + 1) * width) (by omega),
    List.take_left' upperSize, List.drop_left' upperSize,
    if_pos ⟨cutInside, order, topInside, bottomInside⟩, region, List.take_left' frontSize,
    List.take_left' lastSize, List.drop_left' lastSize, ← List.append_assoc front,
    List.drop_left' nextSize]

theorem exchangeRows_flatten {front inner back : List (List UInt32)} {first last : List UInt32}
    (sized : ∀ part ∈ front ++ first :: (inner ++ last :: back), part.length = width)
    (counted : (front ++ first :: (inner ++ last :: back)).flatten.length < Count.bound) :
    Pixmap.exchangeRows width front.length (front.length + (inner.length + 1))
        (front ++ first :: (inner ++ last :: back)).flatten =
      .ok (front ++ last :: (inner ++ first :: back)).flatten := by
  simp only [List.forall_mem_append, List.forall_mem_cons] at sized
  obtain ⟨hfront, hfirst, hinner, hlast, -⟩ := sized
  have frontSize : front.flatten.length = front.length * width := by
    rw [length_flatten_of_sized hfront, Nat.mul_comm]
  have upperSize : (front.flatten ++ (first ++ inner.flatten)).length =
      (front.length + (inner.length + 1)) * width := by
    rw [List.length_append, List.length_append, frontSize, hfirst, length_flatten_of_sized hinner,
      Nat.add_mul, Nat.succ_mul, Nat.mul_comm width]
    omega
  simpa using exchangeRows_append frontSize hfirst upperSize hlast back.flatten
    (by simpa using counted)

/-- Between rows in front and behind, the ones in the middle are put in the opposite order. -/
theorem exchangeEnds_flatten {front middle back : List (List UInt32)}
    (sized : ∀ part ∈ front ++ (middle ++ back), part.length = width)
    (counted : (front ++ (middle ++ back)).flatten.length < Count.bound) :
    Pixmap.exchangeEnds width front.length (front.length + middle.length)
        (front ++ (middle ++ back)).flatten =
      .ok (front ++ (middle.reverse ++ back)).flatten := by
  -- the rows in front and behind are those already exchanged
  induction middle using List.bidirectionalRec generalizing front back with
  | nil =>
    rw [Pixmap.exchangeEnds, if_neg (by simp)]
    rfl
  | singleton row =>
    rw [Pixmap.exchangeEnds, if_neg (by simp)]
    rfl
  | cons_append first inner last ih =>
    have order : front ++ (first :: (inner ++ [last]) ++ back) =
        front ++ first :: (inner ++ last :: back) := by simp
    have moved : front ++ last :: (inner ++ first :: back) =
        (front ++ [last]) ++ (inner ++ first :: back) := by simp
    rw [order] at sized counted ⊢
    have others : ∀ part ∈ (front ++ [last]) ++ (inner ++ first :: back), part.length = width := by
      intro part member
      apply sized part
      simp only [List.mem_append, List.mem_cons] at member ⊢
      tauto
    have still : ((front ++ [last]) ++ (inner ++ first :: back)).flatten.length < Count.bound := by
      simp only [List.length_flatten, List.map_append, List.map_cons, List.sum_append,
        List.sum_cons, List.map_nil, List.sum_nil] at counted ⊢
      omega
    have rest := ih others still
    rw [List.length_append, List.length_singleton, Nat.add_right_comm] at rest
    have bottom : front.length + (first :: (inner ++ [last])).length - 1 =
        front.length + (inner.length + 1) := by simp
    rw [Pixmap.exchangeEnds, if_pos (by simp), bottom, exchangeRows_flatten sized counted, moved]
    refine rest.trans ?_
    simp

/-- In place, all accesses are inside, and the rows come out in the opposite order. -/
theorem Counted.flipY_eq (counted : m.Counted) : m.pixmap.flipY = .ok m.flipY.pixmap := by
  by_cases narrow : m.width = 0
  · have empty (cells : List UInt32) (size : cells.length = m.width * m.height) : cells = [] :=
      List.length_eq_zero_iff.mp (by rw [size, narrow, Nat.zero_mul])
    have same : m.flipY.pixels = m.pixels := by
      rw [empty _ m.length_pixels, empty _ m.flipY.length_pixels]
    rw [Pixmap.flipY, width_pixmap, if_pos narrow, pixmap, pixmap, same]
    rfl
  · have sized : ∀ part ∈ [] ++ (m.rows ++ []), part.length = m.width := by
      simpa using fun part => length_of_mem_rows
    have small : ([] ++ (m.rows ++ [])).flatten.length < Count.bound := by
      rw [List.nil_append, List.append_nil, m.flatten_rows, m.length_pixels]
      exact counted
    have exchanged := exchangeEnds_flatten sized small
    rw [List.length_nil, Nat.zero_add, m.length_rows, List.nil_append, List.append_nil,
      List.nil_append, List.append_nil, m.flatten_rows] at exchanged
    rw [Pixmap.flipY, width_pixmap, if_neg narrow, height_pixmap, pixels_pixmap, exchanged]
    rfl

theorem redrawn_flipY (m : Image) : m.Redrawn (Change.flip.onCells m.height m.get?) m.flipY where
  width := rfl
  height := rfl
  get := by
    funext x y
    rw [Change.onCells]
    by_cases low : y < m.height
    · rw [if_pos low, get?_flipY m x low]
    · rw [if_neg low]
      exact get?_outside fun inside => low inside.2

theorem Counted.answers (counted : m.Counted) (change : Change) : m.Answers change := by
  cases change with
  | set x y cell => exact counted.set_answers x y cell
  | editRow y edit => exact counted.editRow_answers y edit
  | setRow y cells => exact counted.setRow_answers y cells
  | flip =>
    refine answers_of_fits (n := m.flipY) trivial ?_ m.redrawn_flipY
    rw [Change.apply, counted.flipY_eq]
    rfl

/-- A whole run of changes draws what its changes draw, one after another. -/
theorem Counted.applyAll_eq (counted : m.Counted) (changes : List Change) :
    ∃ n : Image, Change.applyAll changes m.pixmap =
        .ok (changes.map fun change => decide (change.Fits m.width m.height), n.pixmap) ∧
      m.Redrawn (changes.foldl (Change.draw m.width m.height) m.get?) n := by
  induction changes generalizing m with
  | nil => exact ⟨m, rfl, rfl, rfl, rfl⟩
  | cons change changes ih =>
    obtain ⟨next, first, -, wide, high, get⟩ := counted.answers change
    have still : next.Counted := by rwa [Counted, wide, high]
    obtain ⟨last, others, lastWide, lastHigh, lastGet⟩ := ih still
    rw [wide, high] at others
    rw [wide, high, get] at lastGet
    refine ⟨last, ?_, lastWide.trans wide, lastHigh.trans high, lastGet⟩
    rw [Change.applyAll, first]
    change (do
      let (answers, last) ← Change.applyAll changes next.pixmap
      return (decide (change.Fits m.width m.height) :: answers, last)) = _
    rw [others]
    rfl

theorem eq_of_pixels (wide : m.width = n.width) (high : m.height = n.height)
    (pixels : m.pixels = n.pixels) : m = n := by
  cases m
  cases n
  simp_all

theorem flipY_flipY (m : Image) : m.flipY.flipY = m := by
  refine eq_of_pixels rfl rfl ?_
  change m.flipY.rows.reverse.flatten = m.pixels
  rw [rows_flipY, List.reverse_reverse, flatten_rows]

end Image

/-! ### Images that are made -/

namespace Pixmap

variable {width height : Nat} {m : Pixmap}

/-- An image is made of as many cells as it has places, or blank with a number of places that is a
machine word. -/
def Made (width height : Nat) (m : Pixmap) : Prop :=
  (new width height = .ok m ∧ width * height < Count.bound) ∨
    ∃ pixels, ofPixels? width height pixels = some m

theorem new_eq_ok (made : new width height = .ok m) :
    m = ⟨width, height, List.replicate (word (width * height)) 0⟩ := by
  simp only [new] at made
  split at made
  · exact (Except.ok.inj made).symm
  · cases made

theorem Made.exists_image (made : Made width height m) :
    ∃ image : Image, m = image.pixmap ∧ image.width = width ∧ image.height = height ∧
      image.Counted := by
  rcases made with ⟨made, counted⟩ | ⟨pixels, made⟩
  · have whole : word (width * height) = width * height := Nat.mod_eq_of_lt counted
    have cells := new_eq_ok made
    rw [whole] at cells
    exact ⟨⟨width, height, _, List.length_replicate⟩, cells, rfl, rfl, counted⟩
  · obtain ⟨count, product, made⟩ := Option.bind_eq_some_iff.mp made
    obtain ⟨rfl, counted⟩ := Count.mul?_eq_some.mp product
    by_cases fills : width * height = pixels.length
    · rw [if_pos fills] at made
      exact ⟨⟨width, height, pixels, fills.symm⟩, (Option.some.inj made).symm, rfl, rfl, counted⟩
    · rw [if_neg fills] at made
      cases made

/-- With more places than a word can count, some place lies right behind the cells. -/
theorem get_of_wrapped (wraps : Count.bound ≤ width * height) (made : new width height = .ok m) :
    ∃ x y, x < width ∧ y < height ∧ m.get x y = .error .index := by
  have below : word (width * height) < width * height :=
    Nat.lt_of_lt_of_le (Nat.mod_lt _ (by decide)) wraps
  have wide : 0 < width := Nat.pos_of_mul_pos_right (Nat.lt_of_le_of_lt (Nat.zero_le _) below)
  have split := Nat.div_add_mod' (word (width * height)) width
  have left := Nat.mod_lt (word (width * height)) wide
  have low : word (width * height) / width < height := Nat.div_lt_of_lt_mul below
  refine ⟨_, _, left, low, ?_⟩
  have place : m.place (word (width * height) % width) (word (width * height) / width) =
      word (width * height) := by
    rw [new_eq_ok made, Pixmap.place, split]
    exact Nat.mod_mod _ _
  rw [get, place, new_eq_ok made, if_pos ⟨left, low⟩,
    List.getElem?_eq_none (Nat.le_of_eq List.length_replicate)]

/--
Whatever changes are made to an image, none of them leaves its cells: it keeps its rectangle, and
all lookups stay inside. A change draws its own cells and no others, or is refused and draws none.
Upside down, in place from both ends, every row is in the opposite place, and the second time all of
them are back. But a blank image with more places than a word can count has only so many cells as
are left of the product in a word, and then a lookup at one of its places ends the program.
-/
theorem changes_exact (width height : Nat) :
    (∀ m, Made width height m → ∀ changes : List Change,
      ∃ n, Change.applyAll changes m =
          .ok (changes.map fun change => decide (change.Fits width height), n) ∧
        n.Shaped width height ∧
        (∀ cells, m.Shows cells → n.Shows (changes.foldl (Change.draw width height) cells)) ∧
        (∀ change : Change, ¬change.Fits width height → change.apply n = .ok (false, n)) ∧
        ∃ mirror, n.flipY = .ok mirror ∧ mirror.flipY = .ok n ∧
          ∀ x y, y < height → mirror.get x y = n.get x (height - 1 - y)) ∧
    (Count.bound ≤ width * height → ∀ m, new width height = .ok m →
      m.pixels.length = width * height % Count.bound ∧
        ∃ x y, x < width ∧ y < height ∧ m.get x y = .error .index) := by
  constructor
  · rintro _ made changes
    obtain ⟨image, rfl, rfl, rfl, counted⟩ := made.exists_image
    obtain ⟨n, done, wide, high, get⟩ := counted.applyAll_eq changes
    have still : n.Counted := by rwa [Image.Counted, wide, high]
    have turned : n.flipY.Counted := still
    refine ⟨n.pixmap, done, wide ▸ high ▸ still.shaped, ?_, ?_, n.flipY.pixmap, still.flipY_eq, ?_,
      ?_⟩
    · intro cells shows x y
      have same : image.get? = cells := by
        funext x y
        exact Except.ok.inj ((counted.get_eq x y).symm.trans (shows x y))
      rw [still.get_eq, get, same]
    · intro change outside
      rw [← wide, ← high] at outside
      obtain ⟨next, applied, refused, -⟩ := still.answers change
      rw [applied, decide_eq_false outside, refused outside]
    · rw [turned.flipY_eq, n.flipY_flipY]
    · intro x y low
      rw [← high] at low ⊢
      rw [turned.get_eq, still.get_eq, Image.get?_flipY n x low]
  · intro wraps m made
    refine ⟨?_, get_of_wrapped wraps made⟩
    rw [new_eq_ok made]
    exact List.length_replicate

/-- Changes of every kind; the second one is refused. -/
def sampleChanges : List Change :=
  [.set 1 1 9, .setRow 3 [7, 8], .editRow 0 fun x cell => cell + UInt32.ofNat x,
    .setRow 2 [7, 8], .flip]

theorem changes_exact_sampleChanges :
    (∃ m n, ofPixels? 2 3 [1, 2, 3, 4, 5, 6] = some m ∧
      Change.applyAll sampleChanges m = .ok ([true, false, true, true, true], n) ∧
      n.Shaped 2 3 ∧ n.get 0 0 = .ok (some 7) ∧ n.get 1 1 = .ok (some 9)) ∧
    ∃ m x y, new (2 ^ 40) (2 ^ 40) = .ok m ∧ m.pixels.length = 0 ∧ m.get x y = .error .index := by
  constructor
  · let image : Image := ⟨2, 3, [1, 2, 3, 4, 5, 6], rfl⟩
    have counted : image.Counted := (by decide : 2 * 3 < Count.bound)
    have made : ofPixels? 2 3 [1, 2, 3, 4, 5, 6] = some image.pixmap := rfl
    obtain ⟨n, done, shaped, shows, -⟩ :=
      (changes_exact 2 3).1 image.pixmap (.inr ⟨_, made⟩) sampleChanges
    have cells := shows image.get? counted.get_eq
    exact ⟨image.pixmap, n, made, done, shaped, cells 0 0, cells 1 1⟩
  · obtain ⟨m, made⟩ : ∃ m, new (2 ^ 40) (2 ^ 40) = .ok m := ⟨_, rfl⟩
    obtain ⟨length, x, y, -, -, outside⟩ := (changes_exact (2 ^ 40) (2 ^ 40)).2 (by decide) m made
    exact ⟨m, x, y, made, length, outside⟩

/-- An image of four thousand million rows of as many cells holds none. -/
theorem new_wraps : new (2 ^ 32) (2 ^ 32) = .ok ⟨2 ^ 32, 2 ^ 32, []⟩ ∧
    (⟨2 ^ 32, 2 ^ 32, []⟩ : Pixmap).get 0 0 = .error .index ∧
    (⟨2 ^ 32, 2 ^ 32, []⟩ : Pixmap).row 0 = .error .index := ⟨rfl, rfl, rfl⟩

end Pixmap

end PackageAssets
