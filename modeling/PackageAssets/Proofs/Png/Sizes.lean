import PackageAssets.Proofs.Format.Settled
import PackageAssets.Proofs.Image.Words
import PackageAssets.Proofs.Png.Filtering
import PackageAssets.Proofs.Png.Shape

/-!
# The sizes of a PNG

The sides of an image are numbers of 32 bits, so a row always has a size in
words, but all rows together may not. That is asked before anything else is
computed from the size, and then the inflated data is compared with just this
number of bytes.
-/
namespace PackageAssets.Png

open Reading

/-- The bytes of a stored row, with the number of its filter. -/
def storedSize (header : Header) : Nat := header.width * header.color.components + 1

/-- The bytes of all stored rows. -/
def fullSize (header : Header) : Nat := storedSize header * header.height

/-- The sizes that are computed of an image, in words; those of all rows once they are a count. -/
structure SizesHeld (header : Header) : Prop where
  row : Holds (.ofNat header.width * .ofNat header.color.components)
    (header.width * header.color.components)
  stored : Holds (.ofNat header.width * .ofNat header.color.components + 1) (storedSize header)
  rows : fullSize header < 2 ^ 64 → RectangleHeld (storedSize header) header.height
  cells : fullSize header < 2 ^ 64 → RectangleHeld header.width header.height

/-- What comes of inflated data: it is held against the size of all rows as it is. -/
structure Measured (header : Header) (data : List UInt8) (outcome : Except Error Image) :
    Prop where
  large : outcome = .error (.largeDimensions header.width header.height) ↔
    2 ^ 64 ≤ fullSize header
  short : outcome = .error (.shortImageData (fullSize header) data.length) ↔
    fullSize header < 2 ^ 64 ∧ data.length < fullSize header
  filled : fullSize header < 2 ^ 64 → fullSize header ≤ data.length →
    (∀ i < header.height, data.getD (i * storedSize header) 0 ≤ 4) →
      ∃ image, outcome = .ok image ∧ image.width = header.width ∧ image.height = header.height ∧
        image.pixels.length = header.width * header.height

section Sizes

variable {options : DecoderOptions} {header : Header} (sized : header.Sized options)

include sized

theorem Header.Sized.sizesHeld : SizesHeld header := by
  have wide := sized.width
  have tall := sized.height
  have few : header.color.components ≤ 4 := by cases header.color <;> decide
  have some : 0 < header.color.components := header.color.components_pos
  have narrow : header.width * header.color.components ≤ header.width * 4 :=
    Nat.mul_le_mul_left _ few
  have covers : header.width ≤ storedSize header :=
    Nat.le_succ_of_le (Nat.le_mul_of_pos_right _ some)
  have bounds : storedSize header < 2 ^ 64 ∧ header.width < 2 ^ 64 ∧ header.height < 2 ^ 64 := by
    unfold storedSize
    omega
  have row : Holds (.ofNat header.width * .ofNat header.color.components)
      (header.width * header.color.components) := by
    exact (Holds.ofNat bounds.2.1).mul (.ofNat (by omega)) (Nat.lt_of_succ_lt bounds.1)
  constructor
  · exact row
  · exact row.add (show Holds 1 1 from rfl) bounds.1
  · intro small
    exact rectangleHeld bounds.1 bounds.2.2 small
  · intro small
    refine rectangleHeld bounds.2.1 bounds.2.2 (Nat.lt_of_le_of_lt ?_ small)
    exact Nat.mul_le_mul_right _ covers

end Sizes

/-! ### Inflated data -/

/-- Rows are reconstructed unless one of them names an unknown filter. -/
theorem of_reconstructRows_error {components : Nat} {above current : List UInt8}
    {rows done : List (List UInt8)} {e : Error}
    (refused : reconstructRows components above current rows done = .error e) :
    ∃ row ∈ rows, 4 < row.headD 0 ∧ e = .unknownFilter (row.headD 0) := by
  induction rows generalizing above current done with
  | nil => cases refused
  | cons row rows ih =>
    cases known : Filter.ofNumber? (row.headD 0) with
    | none =>
      simp only [reconstructRows, known] at refused
      cases refused
      refine ⟨row, List.mem_cons_self, ?_, rfl⟩
      by_cases small : row.headD 0 ≤ 4
      · obtain ⟨f, named⟩ := exists_ofNumber? small
        cases known.symm.trans named
      · exact UInt8.not_le.mp small
    | some f =>
      simp only [reconstructRows, known] at refused
      obtain ⟨other, member, unknown⟩ := ih refused
      exact ⟨other, List.mem_cons_of_mem row member, unknown⟩

section Data

variable {header : Header} {order : ChannelOrder} {data : List UInt8}

theorem cellsOfData_large (large : 2 ^ 64 ≤ fullSize header) :
    cellsOfData header order data = .error (.largeDimensions header.width header.height) := by
  cases sizes : dataSize? header with
  | none => rw [cellsOfData, sizes]
  | some pair =>
    unfold dataSize? at sizes
    simp only [Option.bind_eq_bind, Option.bind_eq_some_iff, Count.mul?_eq_some,
      Count.add?_eq_some] at sizes
    obtain ⟨_, ⟨rfl, -⟩, _, ⟨rfl, -⟩, all, ⟨rfl, small⟩, -⟩ := sizes
    exact absurd small (Nat.not_lt.mpr large)

section Counted

variable (tall : 0 < header.height) (counted : fullSize header < 2 ^ 64)

include tall counted

theorem cellsOfData_short (few : data.length < fullSize header) :
    cellsOfData header order data = .error (.shortImageData (fullSize header) data.length) := by
  rw [cellsOfData, dataSize?_eq tall counted]
  exact if_pos few

/-- Data that is long enough has a cell for every pixel, or a row with an unknown filter. -/
theorem cellsOfData_enough (order : ChannelOrder) (enough : fullSize header ≤ data.length) :
    (∃ cells, cellsOfData header order data = .ok cells ∧
      cells.length = header.width * header.height) ∨
    ∃ i < header.height, 4 < data.getD (i * storedSize header) 0 ∧
      cellsOfData header order data =
        .error (.unknownFilter (data.getD (i * storedSize header) 0)) := by
  rcases cellsOfData_cases header order data with read | ⟨e, refused, -⟩
  · exact .inl read
  have made := cellsOfData_eq order tall counted enough
  rw [refused] at made
  cases rows : reconstructRows header.color.components
      (List.replicate (header.width * header.color.components) 0)
      (List.replicate (header.width * header.color.components) 0)
      (blocks (header.width * header.color.components + 1) header.height data) [] with
  | ok done =>
    rw [rows] at made
    cases made
  | error e' =>
    rw [rows] at made
    cases made
    obtain ⟨row, member, unknown, rfl⟩ := of_reconstructRows_error rows
    rw [blocks_eq_map] at member
    obtain ⟨i, inside, rfl⟩ := List.mem_map.mp member
    rw [headD_take_drop (Nat.succ_pos _)] at unknown refused
    exact .inr ⟨i, List.mem_range.mp inside, unknown, refused⟩

end Counted

/-! ### Images -/

variable {inflate : Inflater} {w : Walk} (known : w.header = some header)
  (inflated : inflate w.options.confirmChecksums w.compressed = .ok data)

include known inflated

theorem imageOf_of_error {e : Error}
    (refused : cellsOfData header w.options.order data = .error e) :
    imageOf inflate w = .error e := by
  simp only [imageOf, known, inflated, refused]

theorem imageOf_of_ok {cells : List UInt32}
    (read : cellsOfData header w.options.order data = .ok cells)
    (size : cells.length = header.width * header.height) :
    ∃ image, imageOf inflate w = .ok image ∧
      image.width = header.width ∧ image.height = header.height ∧
      image.pixels.length = header.width * header.height := by
  have made : Image.ofPixels? header.width header.height cells = some ⟨_, _, cells, size⟩ :=
    dif_pos size
  simp only [imageOf, known, inflated, read, made]
  exact ⟨_, rfl, rfl, rfl, size⟩

theorem measured {options : DecoderOptions} (sized : header.Sized options) :
    Measured header data (imageOf inflate w) := by
  have tall : 0 < header.height := by
    have filled := sized.filled
    omega
  by_cases counted : fullSize header < 2 ^ 64
  · by_cases few : data.length < fullSize header
    · rw [imageOf_of_error known inflated (cellsOfData_short tall counted few)]
      constructor <;> simp <;> omega
    · rcases cellsOfData_enough tall counted w.options.order (Nat.not_lt.mp few) with
        ⟨cells, read, size⟩ | ⟨i, inside, unknown, refused⟩
      · obtain ⟨image, made, shape⟩ := imageOf_of_ok known inflated read size
        rw [made]
        constructor
        · simp
          omega
        · simp
          omega
        · exact fun _ _ _ => ⟨image, rfl, shape⟩
      · rw [imageOf_of_error known inflated refused]
        constructor
        · simp
          omega
        · simp
          omega
        · exact fun _ _ filters => absurd (filters i inside) (UInt8.not_le.mpr unknown)
  · rw [imageOf_of_error known inflated (cellsOfData_large (Nat.not_lt.mp counted))]
    constructor <;> simp <;> omega

end Data

/-! ### Readers -/

/-- An image is measured with the header that was read, whatever was asked before. -/
theorem sizes_of_decodeHeaders {inflate : Inflater} {s : Stream} {options : DecoderOptions}
    (requests : List ImageRequest) {t : Decoder}
    (read : decodeHeaders (askAll (ask inflate) requests (Decoder.start s options)).2 = .ok () t) :
    ∃ header, t.found.header = some header ∧ SizesHeld header ∧
      ∀ data, inflate options.confirmChecksums t.found.compressed = .ok data →
        Measured header data
          (outcomeOf
            (decode inflate (askAll (ask inflate) requests (Decoder.start s options)).2)) := by
  have start : Standing s (Walk.Unfinished options) (Decoder.start s options) :=
    standing_start ⟨rfl, rfl, fun _ known => by cases known⟩
  have finished := (known_of_headers (decode_eq inflate) leaves_decodeHeaders
    (fun u finished => decodeHeaders_again finished.complete) (keeps_readFound inflate) start
    requests
    read).found
  obtain ⟨header, known, sized⟩ := finished.headed
  refine ⟨header, known, sized.sizesHeld, fun data inflated => ?_⟩
  rw [← finished.options_eq] at inflated
  have exact := measured known inflated sized
  rw [decode_eq, bind_of_ok read, readFound_eq]
  cases made : imageOf inflate t.found with
  | ok image => rwa [made] at exact
  | error e => rwa [made] at exact

end PackageAssets.Png
