import PackageAssets.Proofs.Bmp.Headers
import PackageAssets.Proofs.Bmp.InStep
import PackageAssets.Proofs.Image.Exchange

/-!
# The pixels of a BMP

A file from the start of a window is an image exactly when its headers can be
read, its rows are there, and every index that is used has a colour. The image is
then given without an order of reading: each pixel is the colour at a place that
is computed from the fields of the headers, and from an index if there is a
palette.
-/
namespace PackageAssets.Bmp

open Reading

/-! ### What the bytes say -/

/-- Where a stored row starts. -/
def rowStart (info : Info) (i : Nat) : Nat := info.dataOffset + i * stride info

/-- The index of a pixel of a stored row, in an image with a palette. -/
def indexAt (bytes : List UInt8) (info : Info) (i x : Nat) : Nat :=
  (bytes.getD (rowStart info i + x) 0).toNat

/-- The bytes are those of an image that can be read. -/
structure Readable (options : DecoderOptions) (bytes : List UInt8) : Prop extends
    HeadersReadable options bytes where
  rows : (infoIn bytes).dataOffset + stride (infoIn bytes) * (infoIn bytes).height ≤ bytes.length
  indices : (infoIn bytes).depth = 8 → ∀ i < (infoIn bytes).height, ∀ x < (infoIn bytes).width,
    indexAt bytes (infoIn bytes) i x < paletteCount bytes

/-- The stored row that is row `y` of the image. -/
def storedRow (info : Info) (y : Nat) : Nat := if info.bottomUp then info.height - 1 - y else y

/-- The colour of a pixel, counted from the top left of the image. -/
def pixelIn (bytes : List UInt8) (x y : Nat) : UInt32 :=
  let info := infoIn bytes
  let i := storedRow info y
  if info.depth = 8 then colorAt bytes (paletteStart bytes + 4 * indexAt bytes info i x)
  else colorAt bytes (rowStart info i + x * (info.depth / 8))

/-! ### Rows -/

/-- A list is mapped just if every element can be. -/
theorem mapM_eq_ok_iff {α β ε : Type} {f : α → Except ε β} {possible : α → Prop} {g : α → β}
    (known : ∀ a b, f a = .ok b ↔ possible a ∧ g a = b) (l : List α) (made : List β) :
    l.mapM f = .ok made ↔ (∀ a ∈ l, possible a) ∧ l.map g = made := by
  induction l generalizing made with
  | nil =>
    constructor
    · rintro ⟨⟩
      exact ⟨fun a member => absurd member List.not_mem_nil, rfl⟩
    · rintro ⟨-, rfl⟩
      rfl
  | cons a l ih =>
    rw [List.mapM_cons, List.forall_mem_cons, List.map_cons]
    cases first : f a with
    | error e =>
      constructor
      · rintro ⟨⟩
      · rintro ⟨⟨here, -⟩, -⟩
        cases first.symm.trans ((known a (g a)).mpr ⟨here, rfl⟩)
    | ok b =>
      obtain ⟨here, rfl⟩ := (known a b).mp first
      cases rest : l.mapM f with
      | error e =>
        constructor
        · intro mapped
          cases (show Except.error e = Except.ok made from mapped)
        · rintro ⟨⟨-, others⟩, -⟩
          cases rest.symm.trans ((ih _).mpr ⟨others, rfl⟩)
      | ok others =>
        obtain ⟨there, rfl⟩ := (ih others).mp rest
        constructor
        · intro mapped
          cases mapped
          exact ⟨⟨here, there⟩, rfl⟩
        · rintro ⟨-, rfl⟩
          rfl

theorem colorOf_eq_ok (palette : List UInt32) (index : UInt8) (cell : UInt32) :
    colorOf palette index = .ok cell ↔
      index.toNat < palette.length ∧ palette.getD index.toNat 0 = cell := by
  unfold colorOf
  rw [List.getElem?_toArray, List.getD_eq_getElem?_getD]
  cases known : palette[index.toNat]? with
  | none =>
    have outside := List.getElem?_eq_none_iff.mp known
    constructor
    · rintro ⟨⟩
    · intro inside
      exact absurd inside.1 (Nat.not_lt.mpr outside)
  | some color =>
    obtain ⟨inside, -⟩ := List.getElem?_eq_some_iff.mp known
    simp [inside]

/-- Every index that is used in a row has a colour, if there is a palette. -/
def Indexed (info : Info) (palette : List UInt32) (row : List UInt8) : Prop :=
  info.depth = 8 → ∀ index ∈ row.take info.width, index.toNat < palette.length

/-- The cells of a row in which every index has a colour. -/
def cellsOf (info : Info) (palette : List UInt32) (row : List UInt8) : List UInt32 :=
  if info.depth = 8 then (row.take info.width).map fun index => palette.getD index.toNat 0
  else (blocks (info.depth / 8) info.width row).map cellOf

theorem rowCells_eq_ok (info : Info) (palette : List UInt32) (row : List UInt8)
    (cells : List UInt32) :
    rowCells info palette row = .ok cells ↔
      Indexed info palette row ∧ cellsOf info palette row = cells := by
  unfold rowCells Indexed cellsOf
  by_cases indexed : info.depth = 8
  · simp only [indexed, if_true, forall_const]
    exact mapM_eq_ok_iff (colorOf_eq_ok palette) _ _
  · simp only [indexed, if_false, false_implies, true_and, Except.ok.injEq]

theorem length_cellsOf {info : Info} (palette : List UInt32) {row : List UInt8}
    (size : row.length = stride info) : (cellsOf info palette row).length = info.width := by
  unfold cellsOf
  split
  case isTrue indexed =>
    rw [List.length_map, List.length_take_of_le]
    rw [size, stride, indexed]
    omega
  · rw [List.length_map, length_blocks]

/-- Rows are read just if they are there and every index has a colour. -/
theorem reaches_readRows {reached : List (List UInt32) → Decoder → Prop} {r : Decoder}
    (sound : r.stream.Sound) (info : Info) (count : Nat) (done : List (List UInt32)) :
    Reaches reached (readRows info count done) r ↔
      stride info * count ≤ r.stream.ahead.length ∧
        (∀ row ∈ blocks (stride info) count r.stream.ahead, Indexed info r.found.palette row) ∧
        reached (((blocks (stride info) count r.stream.ahead).map
            (cellsOf info r.found.palette)).reverse ++ done)
          (r.past (stride info * count)) := by
  induction count generalizing r done with
  | zero =>
    constructor
    · rintro ⟨_, _, ⟨⟩, held⟩
      exact ⟨Nat.zero_le _, fun row member => absurd member List.not_mem_nil, held⟩
    · rintro ⟨-, -, held⟩
      exact ⟨done, r, rfl, held⟩
  | succ count ih =>
    have first : blocks (stride info) (count + 1) r.stream.ahead =
        r.stream.ahead.take (stride info) ::
          blocks (stride info) count (r.past (stride info)).stream.ahead := by
      rw [ahead_past]
      exact blocks_succ ..
    have room : stride info * (count + 1) = stride info + stride info * count := by
      rw [Nat.mul_succ, Nat.add_comm]
    have enough : stride info * count ≤ (r.past (stride info)).stream.ahead.length ↔
        stride info * count ≤ r.stream.ahead.length - stride info := by
      rw [ahead_past, List.length_drop]
    rw [readRows, reaches_take (Stream.takes_readExact (stride info)) sound, reaches_soFar, first,
      List.forall_mem_cons, List.map_cons, List.reverse_cons, List.append_assoc, room]
    cases read : rowCells info (r.past (stride info)).found.palette
        (id (r.stream.ahead.take (stride info))) with
    | error e =>
      constructor
      · rintro ⟨-, _, _, ⟨⟩, -⟩
      · rintro ⟨-, ⟨indexed, -⟩, -⟩
        cases read.symm.trans ((rowCells_eq_ok ..).mpr ⟨indexed, rfl⟩)
    | ok cells =>
      obtain ⟨indexed, rfl⟩ := (rowCells_eq_ok ..).mp read
      -- the condition on the rows that are left, in terms of the bytes that are ahead here
      have later := ih (sound_past sound (stride info))
        (cellsOf info r.found.palette (r.stream.ahead.take (stride info)) :: done)
      rw [enough, past_past] at later
      constructor
      · rintro ⟨here, rest⟩
        obtain ⟨there, others, held⟩ := later.mp rest
        exact ⟨by omega, ⟨indexed, others⟩, held⟩
      · rintro ⟨all, ⟨-, others⟩, held⟩
        exact ⟨by omega, later.mpr ⟨by omega, others, held⟩⟩

/-! ### Images -/

/-- The stored rows, from where the headers say they start. -/
def rowsFrom (info : Info) (bytes : List UInt8) : List (List UInt8) :=
  blocks (stride info) info.height (bytes.drop info.dataOffset)

/-- The rows of an image, the last stored one first if it is stored bottom up. -/
def arranged (info : Info) (rows : List (List UInt32)) : List (List UInt32) :=
  if info.bottomUp then rows.reverse else rows

theorem arranged_eq (info : Info) (rows : List (List UInt32)) :
    (if info.bottomUp then rows.reverse else rows.reverse.reverse) = arranged info rows := by
  rw [List.reverse_reverse, arranged]

theorem length_of_mem_rowsFrom {info : Info} {bytes row : List UInt8}
    (all : info.dataOffset + stride info * info.height ≤ bytes.length)
    (member : row ∈ rowsFrom info bytes) : row.length = stride info := by
  refine length_of_mem_blocks ?_ member
  rw [List.length_drop, Nat.mul_comm]
  omega

/-- Stored rows that are there make an image. -/
theorem exists_arranged {info : Info} {bytes : List UInt8} (palette : List UInt32)
    (all : info.dataOffset + stride info * info.height ≤ bytes.length) :
    ∃ image : Image, Image.ofPixels? info.width info.height
        (arranged info ((rowsFrom info bytes).map (cellsOf info palette))).flatten = some image ∧
      image.width = info.width ∧ image.height = info.height ∧
      image.rows = arranged info ((rowsFrom info bytes).map (cellsOf info palette)) := by
  have full : Full info ((rowsFrom info bytes).map (cellsOf info palette)).reverse := by
    intro cells member
    obtain ⟨row, there, rfl⟩ := List.mem_map.mp (List.mem_reverse.mp member)
    exact length_cellsOf palette (length_of_mem_rowsFrom all there)
  have count : ((rowsFrom info bytes).map (cellsOf info palette)).reverse.length = info.height := by
    rw [List.length_reverse, List.length_map, rowsFrom, length_blocks]
  obtain ⟨image, made⟩ := exists_image full count
  rw [arranged_eq] at made
  refine ⟨image, made, Image.rows_of_ofPixels? (fun cells member => full cells ?_) ?_ made⟩
  · unfold arranged at member
    split at member
    · exact member
    · exact List.mem_reverse.mpr member
  · unfold arranged
    split
    · exact count
    · rwa [List.length_reverse] at count

/-- An image is read just if its rows are there and every index has a colour. -/
theorem reaches_readImage (reached : Image → Prop) {r : Decoder} (sound : r.stream.Sound)
    {info : Info} (positive : 0 < stride info * info.height) :
    Reaches (fun image _ => reached image) (readImage info) r ↔
      info.dataOffset + stride info * info.height ≤ r.stream.visible.length ∧
        (∀ row ∈ rowsFrom info r.stream.visible, Indexed info r.found.palette row) ∧
        ∃ image, Image.ofPixels? info.width info.height (arranged info
          ((rowsFrom info r.stream.visible).map (cellsOf info r.found.palette))).flatten =
            some image ∧ reached image := by
  have size := Stream.length_visible sound
  have counted := Stream.length_lt_bound sound
  have there := Stream.length_ahead (sound.seek info.dataOffset)
  -- the check stops at the largest count and says nothing above it, but no window is that long;
  -- an offset behind the window passes neither condition, since there is a byte to be stored
  have room : ¬(r.stream.seek info.dataOffset).remaining <
      Count.clamp (stride info * info.height) ∧
        stride info * info.height ≤ (r.stream.seek info.dataOffset).ahead.length ↔
      info.dataOffset + stride info * info.height ≤ r.stream.visible.length := by
    rw [← there, Stream.ahead_seek, List.length_drop, Count.clamp]
    omega
  unfold readImage
  rw [reaches_setPosition, reaches_get, reaches_check, reaches_bind,
    reaches_readRows (sound.seek info.dataOffset), ← and_assoc, room]
  refine and_congr_right fun all => and_congr_right fun _ => ?_
  obtain ⟨image, made, -⟩ := exists_arranged r.found.palette all
  rw [List.append_nil]
  dsimp only
  have same : blocks (stride info) info.height (r.stream.seek info.dataOffset).ahead =
      rowsFrom info r.stream.visible := rfl
  rw [arranged_eq, same, made]
  constructor
  · rintro ⟨_, _, ⟨⟩, held⟩
    exact ⟨image, rfl, held⟩
  · rintro ⟨_, ⟨⟩, held⟩
    exact ⟨image, _, rfl, held⟩

/-! ### Rows in the bytes -/

theorem rowsFrom_eq_map (info : Info) (bytes : List UInt8) :
    rowsFrom info bytes =
      (List.range info.height).map fun i => (bytes.drop (rowStart info i)).take (stride info) := by
  rw [rowsFrom, blocks_eq_map]
  apply List.map_congr_left
  intro i _
  rw [List.drop_drop, rowStart]

theorem width_mul_le_stride (info : Info) : info.width * (info.depth / 8) ≤ stride info := by
  unfold stride
  omega

section Rows

variable {info : Info} {bytes : List UInt8}
  (all : info.dataOffset + stride info * info.height ≤ bytes.length) {i : Nat}
  (inside : i < info.height)

include all inside

theorem rowStart_add_stride_le : rowStart info i + stride info ≤ bytes.length := by
  have rows : (i + 1) * stride info ≤ info.height * stride info := Nat.mul_le_mul_right _ inside
  rw [Nat.succ_mul, Nat.mul_comm info.height] at rows
  unfold rowStart
  omega

/-- The indices of a stored row. -/
theorem take_width_row (indexed : info.depth = 8) :
    ((bytes.drop (rowStart info i)).take (stride info)).take info.width =
      (List.range info.width).map fun x => bytes.getD (rowStart info i + x) 0 := by
  have row := rowStart_add_stride_le all inside
  have wide := width_mul_le_stride info
  rw [indexed] at wide
  rw [List.take_take, Nat.min_eq_left (by omega), take_drop_eq_map (by omega) 0]

theorem indexed_row {palette : List UInt32} :
    Indexed info palette ((bytes.drop (rowStart info i)).take (stride info)) ↔
      (info.depth = 8 → ∀ x < info.width, indexAt bytes info i x < palette.length) := by
  unfold Indexed
  refine forall_congr' fun indexed => ?_
  rw [take_width_row all inside indexed]
  simp only [List.forall_mem_map, List.mem_range]
  rfl

omit inside in
/-- Every index of an image has a colour. -/
theorem indexed_iff {palette : List UInt32} {count : Nat}
    (colors : info.depth = 8 → palette.length = count) :
    (∀ row ∈ rowsFrom info bytes, Indexed info palette row) ↔
      (info.depth = 8 → ∀ i < info.height, ∀ x < info.width, indexAt bytes info i x < count) := by
  rw [rowsFrom_eq_map, List.forall_mem_map]
  constructor
  · intro rows indexed i inside
    rw [← colors indexed]
    exact (indexed_row all inside).mp (rows i (List.mem_range.mpr inside)) indexed
  · intro indices i member
    have inside := List.mem_range.mp member
    refine (indexed_row all inside).mpr fun indexed => ?_
    rw [colors indexed]
    exact indices indexed i inside

theorem getElem?_cellsOf (palette : List UInt32) (deep : info.depth ∈ depths) {x : Nat}
    (left : x < info.width) :
    (cellsOf info palette ((bytes.drop (rowStart info i)).take (stride info)))[x]? =
      some (if info.depth = 8 then palette.getD (indexAt bytes info i x) 0
        else colorAt bytes (rowStart info i + x * (info.depth / 8))) := by
  have row := rowStart_add_stride_le all inside
  unfold cellsOf
  by_cases indexed : info.depth = 8
  · rw [if_pos indexed, if_pos indexed, take_width_row all inside indexed, List.map_map,
      List.getElem?_map, List.getElem?_range left]
    rfl
  · have three : 3 ≤ info.depth / 8 := by
      simp only [depths, List.mem_cons, List.not_mem_nil, or_false] at deep
      omega
    have wide := width_mul_le_stride info
    have pixels : (x + 1) * (info.depth / 8) ≤ info.width * (info.depth / 8) :=
      Nat.mul_le_mul_right _ left
    rw [Nat.succ_mul] at pixels
    rw [if_neg indexed, if_neg indexed, blocks_eq_map, List.map_map, List.getElem?_map,
      List.getElem?_range left, Option.map_some, Function.comp_apply, List.drop_take,
      List.take_take, Nat.min_eq_left (by omega), List.drop_drop,
      cellOf_take_drop three (by omega)]

end Rows

theorem storedRow_lt {info : Info} {y : Nat} (low : y < info.height) :
    storedRow info y < info.height := by
  unfold storedRow
  split <;> omega

theorem getElem?_arranged {info : Info} {rows : List (List UInt32)} {y : Nat}
    (count : rows.length = info.height) (low : y < info.height) :
    (arranged info rows)[y]? = rows[storedRow info y]? := by
  unfold arranged storedRow
  split
  · rw [List.getElem?_reverse (by omega), count]
  · rfl

/-! ### The file -/

/-- The palette that is found with the headers in `head`. -/
def palettePlaced (head all : List UInt8) : List UInt32 :=
  if fieldAt head 28 2 = 8 then colorsFrom all (paletteStart head) (paletteCount head) else []

theorem palettePlaced_of_indexed {head all : List UInt8} (indexed : (infoIn head).depth = 8) :
    palettePlaced head all = colorsFrom all (paletteStart head) (paletteCount head) :=
  if_pos indexed

/-- The image that stored rows make. -/
def imagePlaced? (head all : List UInt8) : Option Image :=
  Image.ofPixels? (infoIn head).width (infoIn head).height (arranged (infoIn head)
    ((rowsFrom (infoIn head) all).map (cellsOf (infoIn head) (palettePlaced head all)))).flatten

/-- The image that the stored rows of a file make. -/
def imageIn? (bytes : List UInt8) : Option Image := imagePlaced? bytes bytes

/-- What the headers in `head` say can be read in `all`: the palette, the rows and every index. -/
structure Placed (options : DecoderOptions) (head all : List UInt8) : Prop extends
    HeadersPlaced options head all where
  rows : (infoIn head).dataOffset + stride (infoIn head) * (infoIn head).height ≤ all.length
  indices : (infoIn head).depth = 8 → ∀ i < (infoIn head).height, ∀ x < (infoIn head).width,
    indexAt all (infoIn head) i x < paletteCount head

/-- The colour of a pixel of an image whose headers are in `head`. -/
def pixelPlaced (head all : List UInt8) (x y : Nat) : UInt32 :=
  let info := infoIn head
  let i := storedRow info y
  if info.depth = 8 then colorAt all (paletteStart head + 4 * indexAt all info i x)
  else colorAt all (rowStart info i + x * (info.depth / 8))

theorem placed_self_iff {options : DecoderOptions} {bytes : List UInt8} :
    Placed options bytes bytes ↔ Readable options bytes := by
  constructor
  · rintro ⟨headers, rows, indices⟩
    exact ⟨headersPlaced_self_iff.mp headers, rows, indices⟩
  · rintro ⟨headers, rows, indices⟩
    exact ⟨headersPlaced_self_iff.mpr headers, rows, indices⟩

theorem FieldsReadable.stored_pos {options : DecoderOptions} {bytes : List UInt8}
    (readable : FieldsReadable options bytes) :
    0 < stride (infoIn bytes) * (infoIn bytes).height := by
  have deep : (infoIn bytes).depth ∈ depths := readable.depth
  have wide : 0 < (infoIn bytes).width := by
    have := readable.width
    simp only [infoIn]
    omega
  have tall : 0 < (infoIn bytes).height := by
    have := readable.height
    simp only [infoIn]
    omega
  have one : 0 < (infoIn bytes).depth / 8 := by
    simp only [depths, List.mem_cons, List.not_mem_nil, or_false] at deep
    omega
  exact Nat.mul_pos (Nat.lt_of_lt_of_le (Nat.mul_pos wide one) (width_mul_le_stride _)) tall

section File

variable {s : Stream} (sound : s.Sound) {options : DecoderOptions} {head : List UInt8}

include sound

/-- What is left to do behind the headers of a file. -/
theorem reaches_readFound {reached : Image → Prop} {t : Decoder} {position : Nat}
    (headers : HeadersPlaced options head s.visible) (stream : t.stream = s.seek position)
    (found : t.found = ⟨options, some (infoIn head), palettePlaced head s.visible⟩) :
    Reaches (fun image _ => reached image) readFound t ↔
      Placed options head s.visible ∧
        ∃ image, imagePlaced? head s.visible = some image ∧ reached image := by
  have known : t.found.info = some (infoIn head) := congrArg Contents.info found
  have palette : t.found.palette = palettePlaced head s.visible := congrArg Contents.palette found
  have same : t.stream.visible = s.visible := by
    rw [stream]
    rfl
  have colors (indexed : (infoIn head).depth = 8) :
      (palettePlaced head s.visible).length = paletteCount head := by
    rw [palettePlaced_of_indexed indexed, length_colorsFrom]
  have image := reaches_readImage (r := t) reached
    (by rw [stream]; exact sound.seek position) headers.fields.stored_pos
  rw [same, palette] at image
  rw [Reaches, readFound_eq known]
  refine image.trans ?_
  constructor
  · rintro ⟨all, indexed, made⟩
    exact ⟨⟨headers, all, (indexed_iff all colors).mp indexed⟩, made⟩
  · rintro ⟨⟨-, all, indices⟩, made⟩
    exact ⟨all, (indexed_iff all colors).mpr indices, made⟩

/-- A file is read just if its headers are, its rows are there, and every index has a colour. -/
theorem reaches_decode_of_ahead (ahead : s.ahead = head) (reached : Image → Prop) :
    Reaches (fun image _ => reached image) decode (Decoder.start s options) ↔
      Placed options head s.visible ∧
        ∃ image, imagePlaced? head s.visible = some image ∧ reached image := by
  have headers (reached : Stream → Contents → Prop) :=
    reaches_decodeHeaders_of_ahead (r := Decoder.start s options) reached sound rfl ahead
  rw [decode_eq, reaches_bind]
  constructor
  · rintro ⟨_, t, read, rest⟩
    obtain ⟨placed, stream, found⟩ :=
      (headers fun stream found => t.stream = stream ∧ t.found = found).mp ⟨(), t, read, rfl, rfl⟩
    exact (reaches_readFound sound placed stream found).mp rest
  · intro image
    obtain ⟨_, t, read, stream, found⟩ := (headers fun stream found =>
      stream = s.seek (headersStop s.position head) ∧
        found = ⟨options, some (infoIn head), palettePlaced head s.visible⟩).mpr
      ⟨image.1.toHeadersPlaced, rfl, rfl⟩
    exact ⟨(), t, read, (reaches_readFound sound image.1.toHeadersPlaced stream found).mpr image⟩

theorem reaches_decode (atStart : s.position = 0) (reached : Image → Prop) :
    Reaches (fun image _ => reached image) decode (Decoder.start s options) ↔
      Readable options s.visible ∧ ∃ image, imageIn? s.visible = some image ∧ reached image := by
  have all : s.ahead = s.visible := by
    rw [Stream.ahead, atStart, List.drop_zero]
  rw [← placed_self_iff]
  exact reaches_decode_of_ahead sound all reached

end File

/-- The image of a file that can be read. -/
theorem of_imagePlaced? {options : DecoderOptions} {head all : List UInt8}
    (placed : Placed options head all) :
    ∃ image, imagePlaced? head all = some image ∧ image.width = (infoIn head).width ∧
      image.height = (infoIn head).height ∧
      ∀ x < image.width, ∀ y < image.height, image.get? x y = some (pixelPlaced head all x y) := by
  obtain ⟨image, made, width, height, rows⟩ :=
    exists_arranged (palettePlaced head all) placed.rows
  refine ⟨image, made, width, height, ?_⟩
  intro x left y low
  rw [width] at left
  rw [height] at low
  have stored := storedRow_lt low
  have count : ((rowsFrom (infoIn head) all).map
      (cellsOf (infoIn head) (palettePlaced head all))).length = (infoIn head).height := by
    rw [List.length_map, rowsFrom, length_blocks]
  have here := rows ▸ getElem?_arranged count low
  rw [rowsFrom_eq_map, List.map_map, List.getElem?_map, List.getElem?_range stored] at here
  rw [Image.get?_of_rows here]
  change (cellsOf _ _ _)[x]? = _
  rw [getElem?_cellsOf placed.rows stored _ placed.fields.depth left, pixelPlaced]
  by_cases indexed : (infoIn head).depth = 8
  · rw [if_pos indexed, if_pos indexed, palettePlaced_of_indexed indexed,
      getD_colorsFrom (placed.indices indexed _ stored x left)]
  · rw [if_neg indexed, if_neg indexed]

theorem of_imageIn? {options : DecoderOptions} {bytes : List UInt8}
    (readable : Readable options bytes) :
    ∃ image, imageIn? bytes = some image ∧ image.width = (infoIn bytes).width ∧
      image.height = (infoIn bytes).height ∧
      ∀ x < image.width, ∀ y < image.height, image.get? x y = some (pixelIn bytes x y) :=
  of_imagePlaced? (placed_self_iff.mpr readable)

/--
A BMP is read from the start of a window exactly when its bytes are those of an image that can be
read, for any options. The image then has the size the headers give, and its pixels are the opaque
colours at the places computed from them.
-/
theorem decode_accepts_readable {s : Stream} (sound : s.Sound) (atStart : s.position = 0)
    (options : DecoderOptions) :
    ((∃ image after, decode (Decoder.start s options) = .ok image after) ↔
      Readable options s.visible) ∧
    ∀ image after, decode (Decoder.start s options) = .ok image after →
      (image.width : Int) = signedAt s.visible 18 ∧
      image.height = (signedAt s.visible 22).natAbs ∧
      ∀ x < image.width, ∀ y < image.height, image.get? x y = some (pixelIn s.visible x y) := by
  constructor
  · constructor
    · rintro ⟨image, after, done⟩
      exact ((reaches_decode sound atStart fun _ => True).mp ⟨image, after, done, trivial⟩).1
    · intro readable
      obtain ⟨image, made, -⟩ := of_imageIn? readable
      obtain ⟨image, after, done, -⟩ :=
        (reaches_decode sound atStart fun _ => True).mpr ⟨readable, image, made, trivial⟩
      exact ⟨image, after, done⟩
  · intro image after done
    obtain ⟨readable, _, made, rfl⟩ :=
      (reaches_decode sound atStart (image = ·)).mp ⟨image, after, done, rfl⟩
    obtain ⟨_, again, width, height, pixels⟩ := of_imageIn? readable
    cases made.symm.trans again
    refine ⟨?_, height, pixels⟩
    have side : (infoIn s.visible).width = (signedAt s.visible 18).natAbs := rfl
    have positive := readable.width
    rw [width, side]
    omega

/-- A bitmap of two by two pixels with a palette of black and of one other colour. -/
def twoColors : List UInt8 :=
  magic ++ [0, 0, 0, 0, 0, 0, 0, 0] ++ [62, 0, 0, 0] ++ [40, 0, 0, 0] ++ [2, 0, 0, 0] ++
    [2, 0, 0, 0] ++ [1, 0] ++ [8, 0] ++ [0, 0, 0, 0] ++ List.replicate 12 0 ++ [2, 0, 0, 0] ++
    [0, 0, 0, 0] ++ [0, 0, 0, 0, 1, 2, 3, 0] ++ [0, 1, 9, 9, 0, 0, 9, 9]

theorem decode_accepts_readable_twoColors :
    let start := Decoder.start (.ofBytes twoColors) .usual
    (∃ image after, decode start = .ok image after) ∧
      ∀ image after, decode start = .ok image after →
        image.width = 2 ∧ image.height = 2 ∧ image.get? 0 0 = some 0xFF000000 ∧
          image.get? 1 1 = some 0xFF010203 := by
  have readable : Readable .usual (Stream.ofBytes twoColors).visible :=
    ⟨⟨by decide +kernel, by decide +kernel, by decide +kernel, by decide +kernel,
      by decide +kernel, by decide +kernel, by decide +kernel, by decide +kernel,
      by decide +kernel, by decide +kernel⟩, by decide +kernel, by decide +kernel⟩
  have sound : (Stream.ofBytes twoColors).Sound := Stream.sound_ofBytes (by decide)
  have accepts := decode_accepts_readable sound rfl .usual
  intro start
  refine ⟨accepts.1.mpr readable, fun image after read => ?_⟩
  obtain ⟨width, height, pixels⟩ := accepts.2 image after read
  have two : signedAt (Stream.ofBytes twoColors).visible 18 = 2 := by decide +kernel
  have two' : signedAt (Stream.ofBytes twoColors).visible 22 = 2 := by decide +kernel
  rw [two] at width
  rw [two'] at height
  refine ⟨by omega, height, ?_, ?_⟩
  · rw [pixels 0 (by omega) 0 (by omega)]
    decide +kernel
  · rw [pixels 1 (by omega) 1 (by omega)]
    decide +kernel

end PackageAssets.Bmp
