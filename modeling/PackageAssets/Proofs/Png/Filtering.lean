import PackageAssets.Png.Scanlines
import PackageAssets.Proofs.Bytes.Stored

/-!
# Filtering undone

Filtering is defined here by position, with no order of work: the stored byte
is the original one less its prediction, and predictions look at the original
rows. Reconstruction goes from left to right and keeps just the last pixel;
after `n` bytes that pixel is the original one, which carries the argument
along a row, and then from row to row.
-/
namespace PackageAssets.Png

/-- The byte one pixel before position `i`, or zero in the first pixel. -/
def pixelBefore (components : Nat) (row : List UInt8) (i : Nat) : UInt8 :=
  if i < components then 0 else row.getD (i - components) 0

namespace Filter

/-- The prediction of a byte from its neighbours. -/
def prediction (f : Filter) (left above corner : UInt8) : UInt8 :=
  match f with
  | none => 0
  | sub => left
  | up => above
  | average => UInt8.ofNat ((left.toNat + above.toNat) / 2)
  | paeth =>
    [left, above, corner].minOn
      (fun b => ((left.toNat : Int) + above.toNat - corner.toNat - b.toNat).natAbs) (by simp)

/-- A row below `above`, filtered. -/
def filtered (f : Filter) (components : Nat) (above row : List UInt8) : List UInt8 :=
  row.mapIdx fun i b => b - f.prediction (pixelBefore components row i) (above.getD i 0)
    (pixelBefore components above i)

theorem nearest_of_three (distance : UInt8 → Nat) (a b c : UInt8) :
    (if distance a ≤ distance b ∧ distance a ≤ distance c then a
      else if distance b ≤ distance c then b else c) =
      [a, b, c].minOn distance (by simp) := by
  simp only [List.minOn, List.foldl_cons, List.foldl_nil, minOn]
  by_cases first : distance a ≤ distance b
  · rw [if_pos first]
    by_cases second : distance a ≤ distance c
    · rw [if_pos ⟨first, second⟩, if_pos second]
    · rw [if_neg (fun h => second h.2), if_neg second, if_neg (by omega)]
  · rw [if_neg first, if_neg (fun h => first h.1)]

theorem predict_eq_prediction (f : Filter) (left above corner : UInt8) :
    f.predict left above corner = f.prediction left above corner := by
  cases f with
  | paeth =>
    exact nearest_of_three
      (fun b => ((left.toNat : Int) + above.toNat - corner.toNat - b.toNat).natAbs)
      left above corner
  | _ => rfl

end Filter

/-- The pixel before position `n`; positions before the row hold zeros. -/
def lastPixel (components : Nat) (row : List UInt8) (n : Nat) : List UInt8 :=
  ((List.replicate components 0 ++ row).drop n).take components

theorem lastPixel_zero (components : Nat) (row : List UInt8) :
    lastPixel components row 0 = List.replicate components 0 := by
  rw [lastPixel, List.drop_zero, List.take_left' List.length_replicate]

theorem headD_lastPixel {components : Nat} (positive : 0 < components) (row : List UInt8)
    (n : Nat) : (lastPixel components row n).headD 0 = pixelBefore components row n := by
  rw [lastPixel, List.headD_eq_head?_getD, List.head?_take, if_neg (by omega), List.head?_drop,
    pixelBefore, List.getElem?_append, List.length_replicate]
  by_cases first : n < components
  · rw [if_pos first, if_pos first, List.getElem?_replicate, if_pos first]
    rfl
  · rw [if_neg first, if_neg first, List.getD_eq_getElem?_getD]

theorem tail_lastPixel {components : Nat} (positive : 0 < components) {row : List UInt8} {n : Nat}
    (inside : n < row.length) :
    (lastPixel components row n).tail ++ [row[n]] = lastPixel components row (n + 1) := by
  obtain ⟨k, rfl⟩ : ∃ k, components = k + 1 := ⟨components - 1, by omega⟩
  have room : k < ((List.replicate (k + 1) 0 ++ row).drop (n + 1)).length := by
    rw [List.length_drop, List.length_append, List.length_replicate]
    omega
  have last : ((List.replicate (k + 1) 0 ++ row).drop (n + 1))[k] = row[n] := by
    rw [List.getElem_drop, List.getElem_append_right (by rw [List.length_replicate]; omega)]
    congr 1
    rw [List.length_replicate]
    omega
  rw [lastPixel, lastPixel, List.take_succ_eq_append_getElem room, last, ← List.drop_one,
    List.drop_take, List.drop_drop, Nat.add_sub_cancel]

theorem Filter.length_filtered (f : Filter) (components : Nat) (above row : List UInt8) :
    (f.filtered components above row).length = row.length := List.length_mapIdx

theorem Filter.filtered_none (components : Nat) (above row : List UInt8) :
    Filter.none.filtered components above row = row := by
  refine List.ext_getElem (Filter.length_filtered .none components above row) ?_
  intro i before after
  exact (List.getElem_mapIdx ..).trans (UInt8.sub_zero _)

/-- After `n` bytes the original ones are done, and the last pixels are the original ones. -/
theorem reconstruct_prefix (f : Filter) {components : Nat} (positive : 0 < components)
    {above row : List UInt8} (same : above.length = row.length) {n : Nat}
    (inside : n ≤ row.length) :
    (((f.filtered components above row).zip above).take n).foldl
        (fun p pair => f.advance p pair.1 pair.2)
        ⟨List.replicate components 0, List.replicate components 0, []⟩ =
      ⟨lastPixel components row n, lastPixel components above n, (row.take n).reverse⟩ := by
  induction n with
  | zero => rw [lastPixel_zero, lastPixel_zero]; rfl
  | succ n ih =>
    have room : n < ((f.filtered components above row).zip above).length := by
      rw [List.length_zip, Filter.length_filtered]
      omega
    rw [List.take_succ_eq_append_getElem room, List.foldl_append, ih (by omega),
      List.take_succ_eq_append_getElem inside]
    have at_n : n < (f.filtered components above row).length := by
      rw [Filter.length_filtered]
      omega
    have stored : (f.filtered components above row)[n] =
        row[n] - f.prediction (pixelBefore components row n) (above.getD n 0)
          (pixelBefore components above n) := List.getElem_mapIdx ..
    have upper : above.getD n 0 = above[n] := by
      rw [List.getD_eq_getElem?_getD, List.getElem?_eq_getElem (by omega), Option.getD_some]
    rw [List.foldl_cons, List.foldl_nil, List.getElem_zip, stored, upper, Filter.advance,
      headD_lastPixel positive, headD_lastPixel positive, Filter.predict_eq_prediction]
    dsimp only
    rw [UInt8.sub_add_cancel, tail_lastPixel positive, tail_lastPixel positive,
      List.reverse_append, List.reverse_singleton, List.singleton_append]

/-- Reconstruction gives back the row that was filtered. -/
theorem reconstruct_filtered (f : Filter) {components : Nat} (positive : 0 < components)
    {above row : List UInt8} (same : above.length = row.length) :
    f.reconstruct components ((f.filtered components above row).zip above) = row := by
  have whole := reconstruct_prefix f positive same (Nat.le_refl row.length)
  have size : ((f.filtered components above row).zip above).length = row.length := by
    rw [List.length_zip, Filter.length_filtered]
    omega
  rw [← size, List.take_length, size] at whole
  dsimp only [Filter.reconstruct]
  rw [whole, List.take_length, List.reverse_reverse]

/-- Applied to a filtered row, a filter makes the row, whatever stood in its place before. -/
theorem apply_filtered (f : Filter) {components : Nat} (positive : 0 < components)
    {above row current : List UInt8} (same : above.length = row.length)
    (place : current.length = row.length) (wide : components ≤ row.length) :
    f.apply components above (f.filtered components above row) current = row := by
  have size := Filter.length_filtered f components above row
  by_cases plain : f = .none
  · subst plain
    exact Filter.filtered_none components above row
  -- only a filter that does not look at the row above is given another one
  have seen : ∃ used : List UInt8, used.length = row.length ∧
      f.filtered components above row = f.filtered components used row ∧
      (if f = .sub then List.replicate (f.filtered components above row).length 0
        else above) = used := by
    by_cases sub : f = .sub
    · subst sub
      exact ⟨_, List.length_replicate.trans size, rfl, if_pos rfl⟩
    · exact ⟨above, same, rfl, if_neg sub⟩
  obtain ⟨used, usedSize, filtered, hused⟩ := seen
  have whole : ((f.filtered components used row).zip used).length = row.length := by
    rw [List.length_zip, Filter.length_filtered]
    omega
  have unfolded : f.apply components above (f.filtered components above row) current =
      f.reconstruct components ((f.filtered components used row).zip used) := by
    unfold Filter.apply
    dsimp only
    rw [hused, filtered, List.take_of_length_le (by omega), whole, if_neg (by omega),
      Nat.min_eq_left wide, List.drop_eq_nil_of_le (by omega), List.append_nil]
    cases f with
    | none => exact absurd rfl plain
    | _ => rfl
  rw [unfolded, reconstruct_filtered f positive usedSize]

/-! ### All rows -/

/-- Rows, each filtered below the one before and behind the number of its filter. -/
def filteredRows (components : Nat) :
    (above : List UInt8) → List (Filter × List UInt8) → List (List UInt8)
  | _, [] => []
  | above, (f, row) :: rest =>
    (f.number :: f.filtered components above row) :: filteredRows components row rest

theorem ofNumber?_number (f : Filter) : Filter.ofNumber? f.number = some f := by
  cases f <;> rfl

theorem length_filteredRows (components : Nat) (above : List UInt8)
    (rows : List (Filter × List UInt8)) :
    (filteredRows components above rows).length = rows.length := by
  induction rows generalizing above with
  | nil => rfl
  | cons r rows ih => exact congrArg (· + 1) (ih r.2)

theorem length_of_mem_filteredRows (components : Nat) (above : List UInt8) {size : Nat}
    {rows : List (Filter × List UInt8)} (sized : ∀ r ∈ rows, r.2.length = size) :
    ∀ row ∈ filteredRows components above rows, row.length = size + 1 := by
  induction rows generalizing above with
  | nil => simp [filteredRows]
  | cons r rows ih =>
    obtain ⟨first, others⟩ := List.forall_mem_cons.mp sized
    refine List.forall_mem_cons.mpr ⟨?_, ih _ others⟩
    rw [List.length_cons, Filter.length_filtered, first]

/-- From row to row: each is made below the one made before it. -/
theorem reconstructRows_filteredRows {components size : Nat} (positive : 0 < components)
    (wide : components ≤ size) {rows : List (Filter × List UInt8)}
    (sized : ∀ r ∈ rows, r.2.length = size) {above current : List UInt8}
    (overSize : above.length = size) (place : current.length = size) (done : List (List UInt8)) :
    reconstructRows components above current (filteredRows components above rows) done =
      .ok (done.reverse ++ rows.map Prod.snd) := by
  induction rows generalizing above current done with
  | nil => simp [filteredRows, reconstructRows]
  | cons r rows ih =>
    obtain ⟨f, row⟩ := r
    obtain ⟨first, others⟩ := List.forall_mem_cons.mp sized
    dsimp only at first
    rw [filteredRows, reconstructRows]
    dsimp only [List.headD_cons, List.tail_cons]
    rw [ofNumber?_number]
    dsimp only
    rw [apply_filtered f positive (by omega) (by omega) (by omega), ih others first overSize,
      List.reverse_cons, List.append_assoc]
    rfl

/-- The first row of an unknown filter stops the work, whatever follows it. -/
theorem reconstructRows_unknown {components : Nat} {good rest : List (List UInt8)}
    {bad : List UInt8} (known : ∀ row ∈ good, ∃ f, Filter.ofNumber? (row.headD 0) = some f)
    (unknown : Filter.ofNumber? (bad.headD 0) = none) (above current : List UInt8)
    (done : List (List UInt8)) :
    reconstructRows components above current (good ++ bad :: rest) done =
      .error (.unknownFilter (bad.headD 0)) := by
  induction good generalizing above current done with
  | nil =>
    rw [List.nil_append, reconstructRows]
    dsimp only
    rw [unknown]
  | cons row good ih =>
    obtain ⟨⟨f, first⟩, others⟩ := List.forall_mem_cons.mp known
    rw [List.cons_append, reconstructRows]
    dsimp only
    rw [first]
    exact ih others _ _ _

/-! ### From data to pixels -/

/-- The cell of pixel `x` in a row of bytes. -/
def pixelAt (color : ColorType) (order : ChannelOrder) (row : List UInt8) (x : Nat) : UInt32 :=
  let byte k := row.getD (x * color.components + k) 0
  let alpha := match color with
    | .rgb => 255
    | .rgba => byte 3
  match order with
  | .rgba => (Color.mk (byte 0) (byte 1) (byte 2) alpha).pack
  | .bgra => (Color.mk (byte 2) (byte 1) (byte 0) alpha).pack

theorem cellsOf_eq (color : ColorType) (order : ChannelOrder) {row : List UInt8} {width : Nat}
    (size : row.length = width * color.components) :
    cellsOf color order row = (List.range width).map (pixelAt color order row) := by
  have positive : 0 < color.components := by cases color <;> decide
  rw [cellsOf, size, Nat.mul_div_cancel _ positive, blocks_eq_map, List.map_map]
  apply List.map_congr_left
  intro x hx
  have inside : x * color.components + color.components ≤ row.length := by
    rw [size, ← Nat.succ_mul]
    exact Nat.mul_le_mul_right _ (List.mem_range.mp hx)
  rw [Function.comp_apply, take_drop_eq_map inside 0]
  cases color <;> cases order <;> rfl

theorem ofNumber?_eq_none {n : UInt8} (large : 4 < n) : Filter.ofNumber? n = none := by
  have small (k : UInt8) (hk : k ≤ 4) : ¬n = k := by
    rintro rfl
    exact absurd large (UInt8.not_lt.mpr hk)
  simp only [Filter.ofNumber?, small 0 (by decide), small 1 (by decide), small 2 (by decide),
    small 3 (by decide), small 4 (by decide), if_false]

theorem exists_ofNumber? {n : UInt8} (small : n ≤ 4) : ∃ f, Filter.ofNumber? n = some f := by
  have cases : n = 0 ∨ n = 1 ∨ n = 2 ∨ n = 3 ∨ n = 4 := by
    have := UInt8.le_iff_toNat_le.mp small
    simp only [← UInt8.toNat_inj]
    change n.toNat ≤ 4 at this
    change n.toNat = 0 ∨ n.toNat = 1 ∨ n.toNat = 2 ∨ n.toNat = 3 ∨ n.toNat = 4
    omega
  rcases cases with rfl | rfl | rfl | rfl | rfl
  · exact ⟨.none, rfl⟩
  · exact ⟨.sub, rfl⟩
  · exact ⟨.up, rfl⟩
  · exact ⟨.average, rfl⟩
  · exact ⟨.paeth, rfl⟩

theorem dataSize?_eq {header : Header} (tall : 0 < header.height)
    (counted : (header.width * header.color.components + 1) * header.height < Count.bound) :
    dataSize? header = some (header.width * header.color.components + 1,
      (header.width * header.color.components + 1) * header.height) := by
  have stored : header.width * header.color.components + 1 < Count.bound :=
    Nat.lt_of_le_of_lt (Nat.le_mul_of_pos_right _ tall) counted
  have row := Count.mul?_eq_some.mpr ⟨rfl, Nat.lt_of_succ_lt stored⟩
  have all := Count.mul?_eq_some.mpr ⟨rfl, counted⟩
  rw [dataSize?, row]
  change (Count.add? _ 1 >>= fun stored => Count.mul? stored _ >>= fun all => _) = _
  rw [Count.add?_eq_some.mpr ⟨rfl, stored⟩]
  change (Count.mul? _ _ >>= fun all => _) = _
  rw [all]
  rfl

theorem cellsOfData_eq {header : Header} (order : ChannelOrder) (tall : 0 < header.height)
    (counted : (header.width * header.color.components + 1) * header.height < Count.bound)
    {data : List UInt8}
    (enough : (header.width * header.color.components + 1) * header.height ≤ data.length) :
    cellsOfData header order data =
      (reconstructRows header.color.components
        (List.replicate (header.width * header.color.components) 0)
        (List.replicate (header.width * header.color.components) 0)
        (blocks (header.width * header.color.components + 1) header.height data) []).map
      fun rows => rows.flatMap (cellsOf header.color order) := by
  rw [cellsOfData, dataSize?_eq tall counted]
  dsimp only
  rw [if_neg (Nat.not_lt.mpr enough), Nat.add_sub_cancel]
  cases reconstructRows header.color.components
      (List.replicate (header.width * header.color.components) 0)
      (List.replicate (header.width * header.color.components) 0)
      (blocks (header.width * header.color.components + 1) header.height data) [] <;> rfl

theorem cellsOfData_filteredRows (header : Header) (order : ChannelOrder)
    (wide : 0 < header.width) (tall : 0 < header.height)
    (counted : (header.width * header.color.components + 1) * header.height < Count.bound)
    {rows : List (Filter × List UInt8)} (height : rows.length = header.height)
    (sized : ∀ r ∈ rows, r.2.length = header.width * header.color.components)
    (extra : List UInt8) :
    cellsOfData header order ((filteredRows header.color.components
        (List.replicate (header.width * header.color.components) 0) rows).flatten ++ extra) =
      .ok (rows.flatMap fun r =>
        (List.range header.width).map (pixelAt header.color order r.2)) := by
  have positive : 0 < header.color.components := by cases header.color <;> decide
  have least : header.color.components ≤ header.width * header.color.components :=
    Nat.le_mul_of_pos_left _ wide
  have zeros : (List.replicate (header.width * header.color.components) (0 : UInt8)).length =
      header.width * header.color.components := List.length_replicate
  have parts := length_of_mem_filteredRows header.color.components
    (List.replicate (header.width * header.color.components) 0) sized
  have cut := blocks_flatten_append parts extra
  have made := reconstructRows_filteredRows positive least sized zeros zeros []
  rw [length_filteredRows, height] at cut
  rw [cellsOfData_eq order tall counted, cut, made]
  · refine congrArg Except.ok ?_
    dsimp only
    rw [List.reverse_nil, List.nil_append, List.flatMap_def, List.flatMap_def, List.map_map]
    refine congrArg List.flatten (List.map_congr_left ?_)
    intro r hr
    exact cellsOf_eq _ _ (sized r hr)
  · rw [List.length_append, length_flatten_of_sized parts, length_filteredRows, height]
    exact Nat.le_add_right _ _

theorem cellsOfData_unknownFilter {header : Header} (order : ChannelOrder)
    (tall : 0 < header.height)
    (counted : (header.width * header.color.components + 1) * header.height < Count.bound)
    {data : List UInt8}
    (enough : (header.width * header.color.components + 1) * header.height ≤ data.length)
    {y : Nat} (inside : y < header.height)
    (first : ∀ z < y, data.getD (z * (header.width * header.color.components + 1)) 0 ≤ 4)
    (unknown : 4 < data.getD (y * (header.width * header.color.components + 1)) 0) :
    cellsOfData header order data = .error
      (.unknownFilter (data.getD (y * (header.width * header.color.components + 1)) 0)) := by
  rw [cellsOfData_eq order tall counted enough]
  have positive : 0 < header.width * header.color.components + 1 := Nat.succ_pos _
  generalize header.width * header.color.components + 1 = stored at *
  obtain ⟨later, hlater⟩ : ∃ n, header.height = y + (n + 1) :=
    ⟨header.height - y - 1, by omega⟩
  have bad := headD_take_drop positive data (y * stored) 0
  have known : ∀ row ∈ blocks stored y data, ∃ f, Filter.ofNumber? (row.headD 0) = some f := by
    intro row hrow
    rw [blocks_eq_map, List.mem_map] at hrow
    obtain ⟨z, hz, rfl⟩ := hrow
    rw [headD_take_drop positive]
    exact exists_ofNumber? (first z (List.mem_range.mp hz))
  rw [hlater, blocks_add, blocks_succ, reconstructRows_unknown known, bad]
  · rfl
  · rw [bad]
    exact ofNumber?_eq_none unknown

/--
Filtering is undone: the data of filtered rows, with anything behind them, gives the pixels of
the rows. Data that is long enough and has a row of an unknown filter is refused for the first.
-/
theorem cellsOfData_inverts_filtering (header : Header) (order : ChannelOrder)
    (wide : 0 < header.width) (tall : 0 < header.height)
    (counted : (header.width * header.color.components + 1) * header.height < Count.bound) :
    (∀ (rows : List (Filter × List UInt8)) (extra : List UInt8), rows.length = header.height →
      (∀ r ∈ rows, r.2.length = header.width * header.color.components) →
      cellsOfData header order ((filteredRows header.color.components
          (List.replicate (header.width * header.color.components) 0) rows).flatten ++ extra) =
        .ok (rows.flatMap fun r =>
          (List.range header.width).map (pixelAt header.color order r.2))) ∧
    ∀ (data : List UInt8) (y : Nat),
      (header.width * header.color.components + 1) * header.height ≤ data.length →
      y < header.height →
      (∀ z < y, data.getD (z * (header.width * header.color.components + 1)) 0 ≤ 4) →
      4 < data.getD (y * (header.width * header.color.components + 1)) 0 →
      cellsOfData header order data = .error
        (.unknownFilter (data.getD (y * (header.width * header.color.components + 1)) 0)) := by
  constructor
  · intro rows extra height sized
    exact cellsOfData_filteredRows header order wide tall counted height sized extra
  · intro data y enough inside first unknown
    exact cellsOfData_unknownFilter order tall counted enough inside first unknown

/-- Every filter once on the same row, and a second row of filter five. -/
theorem cellsOfData_inverts_each_filter :
    let row : List UInt8 := [10, 200, 30, 4, 250, 60]
    let rows : List (Filter × List UInt8) :=
      [(.paeth, row), (.average, row), (.up, row), (.sub, row), (.none, row)]
    let header : Header := ⟨2, 5, 8, .rgb⟩
    cellsOfData header .bgra ((filteredRows 3 (List.replicate 6 0) rows).flatten ++ [9]) =
      .ok (rows.flatMap fun r => (List.range 2).map (pixelAt .rgb .bgra r.2)) ∧
    cellsOfData header .rgba (List.replicate 7 4 ++ List.replicate 28 5) =
      .error (.unknownFilter 5) := by
  intro row rows header
  constructor
  · exact (cellsOfData_inverts_filtering header .bgra (by decide) (by decide) (by decide)).1
      rows [9] rfl (by decide)
  · exact (cellsOfData_inverts_filtering header .rgba (by decide) (by decide) (by decide)).2
      (List.replicate 7 4 ++ List.replicate 28 5) 1 (by decide) (by decide) (by decide) (by decide)

end PackageAssets.Png
