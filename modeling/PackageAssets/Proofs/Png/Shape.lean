import PackageAssets.Png.Scanlines
import PackageAssets.Proofs.Bytes.Stored
import PackageAssets.Proofs.Stream.InStep

/-!
# The shape of image data

Whatever the bytes, reconstruction gives each row the length it has to have, so
that image data that can be read at all has a cell for every pixel. Data that
cannot be read is too short, too large or names an unknown filter.
-/
namespace PackageAssets.Png

namespace Filter

theorem length_reconstruct (f : Filter) (components : Nat) (stored : List (UInt8 × UInt8)) :
    (f.reconstruct components stored).length = stored.length := by
  have grows (p : Progress) :
      (stored.foldl (fun p pair => f.advance p pair.1 pair.2) p).done.length =
        p.done.length + stored.length := by
    induction stored generalizing p with
    | nil => rfl
    | cons pair stored ih =>
      rw [List.foldl_cons, ih, List.length_cons]
      exact Nat.succ_add_eq_add_succ _ _
  rw [reconstruct, List.length_reverse, grows]
  exact Nat.zero_add _

/-- Of rows of one length a row of that length is made. -/
theorem length_apply (f : Filter) (components : Nat) {above raw current : List UInt8}
    {length : Nat} (hraw : raw.length = length) (habove : above.length = length)
    (hcurrent : current.length = length) :
    (f.apply components above raw current).length = length := by
  have filled {above : List UInt8} (habove : above.length = length) :
      ((raw.zip above).take current.length).length = length := by
    rw [List.length_take, List.length_zip, hraw, habove, hcurrent, Nat.min_self, Nat.min_self]
  have made {stored : List (UInt8 × UInt8)} (size : stored.length = length) :
      ((if components = 0 then
          List.zipWith (fun pair old => pair.1 + f.predict old pair.2 pair.2) stored current
        else f.reconstruct (min components stored.length) stored) ++
        current.drop stored.length).length = length := by
    rw [List.length_append, List.length_drop, size, hcurrent, Nat.sub_self, Nat.add_zero]
    split
    · rw [List.length_zipWith, size, hcurrent, Nat.min_self]
    · rw [length_reconstruct, size]
  have zeros : (List.replicate raw.length (0 : UInt8)).length = length :=
    List.length_replicate.trans hraw
  cases f with
  | none => exact hraw
  | sub => exact made (filled zeros)
  | up => exact made (filled habove)
  | average => exact made (filled habove)
  | paeth => exact made (filled habove)

end Filter

/-- Rows are reconstructed to rows of their length, or one names an unknown filter. -/
theorem reconstructRows_cases (components : Nat) {above current : List UInt8}
    {rows done : List (List UInt8)} {length : Nat} (habove : above.length = length)
    (hcurrent : current.length = length) (hrows : ∀ row ∈ rows, row.length = length + 1)
    (hdone : ∀ row ∈ done, row.length = length) :
    (∃ made, reconstructRows components above current rows done = .ok made ∧
      made.length = done.length + rows.length ∧ ∀ row ∈ made, row.length = length) ∨
    ∃ number, reconstructRows components above current rows done =
      .error (.unknownFilter number) := by
  induction rows generalizing above current done with
  | nil =>
    refine Or.inl ⟨done.reverse, rfl, List.length_reverse, ?_⟩
    intro row member
    exact hdone row (List.mem_reverse.mp member)
  | cons row rows ih =>
    obtain ⟨first, others⟩ := List.forall_mem_cons.mp hrows
    cases known : Filter.ofNumber? (row.headD 0) with
    | none =>
      refine Or.inr ⟨row.headD 0, ?_⟩
      simp only [reconstructRows, known]
    | some f =>
      have tail : row.tail.length = length := by
        rw [List.length_tail, first, Nat.add_sub_cancel]
      have size := f.length_apply components tail habove hcurrent
      have more : (f.apply components above row.tail current :: done).length + rows.length =
          done.length + (row :: rows).length := by
        rw [List.length_cons, List.length_cons]
        omega
      have rest := ih size habove others (List.forall_mem_cons.mpr ⟨size, hdone⟩)
      rw [more] at rest
      simp only [reconstructRows, known]
      exact rest

/-- How image data of an image that is not empty can be refused. -/
inductive CellFailure (header : Header) : Error → Prop where
  | large : CellFailure header (.largeDimensions header.width header.height)
  | short (found : Nat)
      (few : found < (header.width * header.color.components + 1) * header.height) :
      CellFailure header (.shortImageData
        ((header.width * header.color.components + 1) * header.height) found)
  | filter (number : UInt8) : CellFailure header (.unknownFilter number)

theorem of_dataSize? {header : Header} {stored all : Nat}
    (sizes : dataSize? header = some (stored, all)) :
    stored = header.width * header.color.components + 1 ∧ all = stored * header.height := by
  unfold dataSize? at sizes
  simp only [Option.bind_eq_bind, Option.bind_eq_some_iff, Count.mul?_eq_some,
    Count.add?_eq_some] at sizes
  obtain ⟨_, ⟨rfl, -⟩, _, ⟨rfl, -⟩, _, ⟨rfl, -⟩, pair⟩ := sizes
  cases pair
  exact ⟨rfl, rfl⟩

theorem ColorType.components_pos (color : ColorType) : 0 < color.components := by
  cases color <;> decide

theorem length_cellsOf (color : ColorType) (order : ChannelOrder) {row : List UInt8} {width : Nat}
    (size : row.length = width * color.components) : (cellsOf color order row).length = width := by
  rw [cellsOf, List.length_map, length_blocks, size, Nat.mul_div_cancel _ color.components_pos]

/-- Image data holds a cell for every pixel, or is refused. -/
theorem cellsOfData_cases (header : Header) (order : ChannelOrder) (data : List UInt8) :
    (∃ cells, cellsOfData header order data = .ok cells ∧
      cells.length = header.width * header.height) ∨
    ∃ e, cellsOfData header order data = .error e ∧ CellFailure header e := by
  cases sizes : dataSize? header with
  | none =>
    refine Or.inr ⟨_, ?_, .large⟩
    rw [cellsOfData, sizes]
  | some pair =>
    obtain ⟨stored, all⟩ := pair
    obtain ⟨rfl, rfl⟩ := of_dataSize? sizes
    have zeros :
        (List.replicate (header.width * header.color.components + 1 - 1) (0 : UInt8)).length =
          header.width * header.color.components := List.length_replicate
    by_cases enough : data.length < (header.width * header.color.components + 1) * header.height
    · refine Or.inr ⟨_, ?_, .short _ enough⟩
      rw [cellsOfData, sizes]
      exact if_pos enough
    · have sized : ∀ row ∈ blocks (header.width * header.color.components + 1) header.height data,
          row.length = header.width * header.color.components + 1 := fun row member =>
        length_of_mem_blocks (by rw [Nat.mul_comm]; omega) member
      have none : ∀ row ∈ ([] : List (List UInt8)), row.length =
          header.width * header.color.components := fun row member => absurd member List.not_mem_nil
      rcases reconstructRows_cases header.color.components zeros zeros sized none with
        ⟨rows, made, count, lengths⟩ | ⟨number, unknown⟩
      · refine Or.inl ⟨rows.flatMap (cellsOf header.color order), ?_, ?_⟩
        · rw [cellsOfData, sizes]
          dsimp only
          rw [if_neg enough, made]
        · have cells :
              ∀ part ∈ rows.map (cellsOf header.color order), part.length = header.width := by
            intro part member
            obtain ⟨row, inside, rfl⟩ := List.mem_map.mp member
            exact length_cellsOf header.color order (lengths row inside)
          have height : (rows.map (cellsOf header.color order)).length = header.height := by
            rw [List.length_map, count, length_blocks]
            exact Nat.zero_add _
          rw [List.flatMap_def, length_flatten_of_sized cells, height]
      · refine Or.inr ⟨_, ?_, .filter number⟩
        rw [cellsOfData, sizes]
        dsimp only
        rw [if_neg enough, unknown]

end PackageAssets.Png
