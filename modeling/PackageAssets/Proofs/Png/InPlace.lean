import Mathlib.Data.List.Induction
import PackageAssets.Proofs.Png.Filtering
import PackageAssets.Proofs.Png.Shape

/-!
# Rows reconstructed in place

A row is reconstructed over what a buffer holds, byte by byte from the left, and the
left neighbour of a byte is read back from the buffer. The buffers may have any
lengths. After `n` bytes the buffer holds the new row up to `n` and its old bytes
behind; so a neighbour that is read was made before, and nothing old gets into the
new row. Nothing is read or written where there is no byte.
-/
namespace PackageAssets.Png

/-! ### Neighbours -/

section Neighbours

variable {components : Nat}

theorem pixelBefore_take (positive : 0 < components) (row : List UInt8) {i n : Nat}
    (inside : i ≤ n) : pixelBefore components (row.take n) i = pixelBefore components row i := by
  unfold pixelBefore
  by_cases first : i < components
  · simp [first]
  · have earlier : i - components < n := by omega
    simp [first, List.getElem?_take_of_lt earlier]

theorem pixelBefore_append (positive : 0 < components) (row rest : List UInt8) {i : Nat}
    (inside : i ≤ row.length) :
    pixelBefore components (row ++ rest) i = pixelBefore components row i := by
  rw [← pixelBefore_take positive (row ++ rest) inside, List.take_left]

/-- Pixels wider than the row are all of it. -/
theorem pixelBefore_min (components : Nat) (row : List UInt8) {i n : Nat} (inside : i < n) :
    pixelBefore (min components n) row i = pixelBefore components row i := by
  unfold pixelBefore
  by_cases first : i < components
  · have clamped : i < min components n := by omega
    simp [first, clamped]
  · have clamped : min components n = components := by omega
    simp [clamped]

end Neighbours

namespace Filter

/-! ### The row that is stored -/

/-- Each byte of the row is the stored byte and its prediction, modulo 256. -/
def Reconstructed (f : Filter) (components : Nat) (above stored row : List UInt8) : Prop :=
  row = stored.mapIdx fun i b => b + f.prediction (pixelBefore components row i) (above.getD i 0)
    (pixelBefore components above i)

variable {f : Filter} {components : Nat} {above stored row : List UInt8}

theorem Reconstructed.length (made : f.Reconstructed components above stored row) :
    row.length = stored.length := by
  rw [made, List.length_mapIdx]

theorem Reconstructed.getElem? (made : f.Reconstructed components above stored row) (i : Nat) :
    row[i]? = stored[i]?.map fun b => b + f.prediction (pixelBefore components row i)
      (above.getD i 0) (pixelBefore components above i) :=
  (congrArg (fun l : List UInt8 => l[i]?) made).trans List.getElem?_mapIdx

/-- It is the row that is stored like this once it is filtered. -/
theorem reconstructed_iff :
    f.Reconstructed components above stored row ↔ f.filtered components above row = stored := by
  constructor
  · intro made
    refine List.ext_getElem? fun i => ?_
    rw [filtered, List.getElem?_mapIdx, made.getElem? i]
    cases stored[i]? with
    | none => rfl
    | some b => simp
  · rintro rfl
    refine List.ext_getElem? fun i => ?_
    rw [List.getElem?_mapIdx, filtered, List.getElem?_mapIdx]
    cases row[i]? with
    | none => rfl
    | some b => simp

/-- Predictions look back only, so that no other row is stored like this. -/
theorem Reconstructed.unique (positive : 0 < components) {other : List UInt8}
    (made : f.Reconstructed components above stored row)
    (like : f.Reconstructed components above stored other) : row = other := by
  refine List.ext_getElem? fun i => ?_
  induction i using Nat.strongRecOn with
  | ind i ih =>
    have left : pixelBefore components row i = pixelBefore components other i := by
      unfold pixelBefore
      by_cases first : i < components
      · simp [first]
      · simp [first, ih (i - components) (by omega)]
    rw [made.getElem?, like.getElem?, left]

theorem Reconstructed.take (positive : 0 < components)
    (made : f.Reconstructed components above stored row) (n : Nat) :
    f.Reconstructed components (above.take n) (stored.take n) (row.take n) := by
  refine List.ext_getElem? fun i => ?_
  rw [List.getElem?_mapIdx, List.getElem?_take, List.getElem?_take]
  by_cases inside : i < n
  · have upper : (above.take n).getD i 0 = above.getD i 0 := by
      simp [List.getElem?_take_of_lt inside]
    rw [if_pos inside, if_pos inside, made.getElem?, upper,
      pixelBefore_take positive row (Nat.le_of_lt inside),
      pixelBefore_take positive above (Nat.le_of_lt inside)]
  · simp [inside]

theorem filtered_concat (positive : 0 < components) (row : List UInt8) (b : UInt8) :
    f.filtered components above (row ++ [b]) = f.filtered components above row ++
      [b - f.prediction (pixelBefore components row row.length) (above.getD row.length 0)
        (pixelBefore components above row.length)] := by
  rw [filtered, List.mapIdx_concat, pixelBefore_append positive row [b] (Nat.le_refl _)]
  congr 1
  refine List.mapIdx_eq_mapIdx_iff.mpr fun i inside => ?_
  rw [pixelBefore_append positive row [b] (Nat.le_of_lt inside)]

/-- Whatever bytes are stored, there is a row that is stored like this. -/
theorem exists_reconstructed (f : Filter) (positive : 0 < components) (above stored : List UInt8) :
    ∃ row, f.Reconstructed components above stored row := by
  induction stored using List.reverseRecOn with
  | nil => exact ⟨[], rfl⟩
  | append_singleton stored b ih =>
    obtain ⟨row, made⟩ := ih
    rw [reconstructed_iff] at made
    refine ⟨row ++ [b + f.prediction (pixelBefore components row row.length)
      (above.getD row.length 0) (pixelBefore components above row.length)], ?_⟩
    rw [reconstructed_iff, filtered_concat positive, made, UInt8.add_sub_cancel]

theorem reconstructed_reconstruct (f : Filter) (positive : 0 < components)
    (same : above.length = stored.length) :
    f.Reconstructed components above stored (f.reconstruct components (stored.zip above)) := by
  obtain ⟨row, made⟩ := f.exists_reconstructed positive above stored
  have back := reconstruct_filtered f positive (same.trans made.length.symm)
  rw [reconstructed_iff.mp made] at back
  rwa [back]

/-- Wider pixels than the row has bytes make no difference. -/
theorem reconstructed_min_iff {n : Nat} (size : stored.length ≤ n) :
    f.Reconstructed (min components n) above stored row ↔
      f.Reconstructed components above stored row := by
  unfold Reconstructed
  refine Iff.of_eq (congrArg (row = ·) (List.mapIdx_eq_mapIdx_iff.mpr fun i inside => ?_))
  have near : i < n := Nat.lt_of_lt_of_le inside size
  rw [pixelBefore_min components row near, pixelBefore_min components above near]

/-- The row above is not looked at by a filter that predicts the left neighbour. -/
theorem reconstructed_sub_iff {other : List UInt8} :
    Filter.sub.Reconstructed components above stored row ↔
      Filter.sub.Reconstructed components other stored row := Iff.rfl

/-! ### Buffers of any lengths -/

/-- How many bytes are made: as many as all buffers have that the filter is given. -/
def reach (f : Filter) (above raw current : List UInt8) : Nat :=
  match f with
  | none | sub => min raw.length current.length
  | up | average | paeth => min (min raw.length above.length) current.length

/-- The row above as a filter sees it: one that is not given it sees zeros. -/
def seenAbove (f : Filter) (above raw : List UInt8) : List UInt8 :=
  if f = sub then List.replicate raw.length 0 else above

section Reach

variable (predicts : f ≠ .none) (above raw current : List UInt8)

include predicts

theorem reach_eq :
    f.reach above raw current =
      min (min raw.length (f.seenAbove above raw).length) current.length := by
  cases f with
  | none => exact absurd rfl predicts
  | sub => simp [reach, seenAbove]
  | up | average | paeth => rfl

/-- What is made are the bytes that all buffers have. With pixels of no bytes, the left neighbour
of a byte is the old byte in its place. -/
theorem apply_eq (components : Nat) :
    let count := f.reach above raw current
    let stored := (raw.take count).zip ((f.seenAbove above raw).take count)
    f.apply components above raw current =
      (if components = 0 then
        List.zipWith (fun pair old => pair.1 + f.predict old pair.2 pair.2) stored current
      else f.reconstruct (min components count) stored) ++ current.drop count := by
  intro count stored
  have cut : (raw.zip (f.seenAbove above raw)).take current.length = stored := by
    have hzip : (raw.zip (f.seenAbove above raw)).take count = stored := List.take_zipWith
    rw [← hzip, List.take_eq_take_iff, List.length_zip]
    have := reach_eq predicts above raw current
    omega
  have size : stored.length = count := by
    rw [← cut, List.length_take, List.length_zip, Nat.min_comm]
    exact (reach_eq predicts above raw current).symm
  rw [← cut] at size ⊢
  rw [← size]
  cases f with
  | none => exact absurd rfl predicts
  | sub | up | average | paeth => rfl

theorem length_seenAbove_take :
    ((f.seenAbove above raw).take (f.reach above raw current)).length =
      (raw.take (f.reach above raw current)).length := by
  have := reach_eq predicts above raw current
  rw [List.length_take, List.length_take]
  omega

theorem length_stored :
    ((raw.take (f.reach above raw current)).zip
      ((f.seenAbove above raw).take (f.reach above raw current))).length =
      f.reach above raw current := by
  have := reach_eq predicts above raw current
  rw [List.length_zip, List.length_take, List.length_take]
  omega

/-- The new bytes are the row that is stored, of what all buffers have. -/
theorem reconstructed_apply {components : Nat} (positive : 0 < components) :
    let count := f.reach above raw current
    f.Reconstructed components (above.take count) (raw.take count)
      ((f.apply components above raw current).take count) := by
  intro count
  have size := length_stored predicts above raw current
  have front : (f.apply components above raw current).take count =
      f.reconstruct (min components count)
        ((raw.take count).zip ((f.seenAbove above raw).take count)) := by
    rw [apply_eq predicts, if_neg (Nat.ne_of_gt positive)]
    exact List.take_left' ((length_reconstruct ..).trans size)
  rw [front]
  rcases Nat.eq_zero_or_pos count with none | some
  · rw [none]
    rfl
  have same := length_seenAbove_take predicts above raw current
  have clamped : 0 < min components count := by omega
  have made := reconstructed_reconstruct f clamped same
  rw [reconstructed_min_iff (List.length_take_le ..)] at made
  by_cases sub : f = .sub
  · subst sub
    exact reconstructed_sub_iff.mp made
  · rwa [seenAbove, if_neg sub] at made ⊢

/-- The bytes behind the new ones stay. -/
theorem apply_frame (components : Nat) :
    let count := f.reach above raw current
    let made := f.apply components above raw current
    made.length = current.length ∧ made.drop count = current.drop count := by
  intro count made
  have size := length_stored predicts above raw current
  have fits : count ≤ current.length := by
    have := reach_eq predicts above raw current
    omega
  obtain ⟨front, new, whole⟩ : ∃ front : List UInt8, front.length = count ∧
      made = front ++ current.drop count := by
    refine ⟨_, ?_, apply_eq predicts above raw current components⟩
    split
    · rw [List.length_zipWith, size]
      exact Nat.min_eq_left fits
    · exact (length_reconstruct ..).trans size
  rw [whole, List.length_append, new, List.length_drop, List.drop_left' new]
  exact ⟨Nat.add_sub_cancel' fits, rfl⟩

end Reach

/-! ### In place -/

/-- The byte one pixel before position `i`, read at its place; before the first pixel nothing is
read. -/
def readBefore (components : Nat) (row : List UInt8) (i : Nat) : Option UInt8 :=
  if i < components then some 0 else row[i - components]?

/-- The prediction of byte `i` of a buffer from the places that the filter reads. -/
def predictIn (f : Filter) (components : Nat) (above buffer : List UInt8) (i : Nat) :
    Option UInt8 :=
  match f with
  | none => some 0
  | sub => readBefore components buffer i
  | up => above[i]?
  | average => do
    let left ← readBefore components buffer i
    let upper ← above[i]?
    return UInt8.ofNat ((left.toNat + upper.toNat) / 2)
  | paeth => do
    let left ← readBefore components buffer i
    let upper ← above[i]?
    let corner ← readBefore components above i
    return Png.paeth left upper corner

/-- Reconstructs byte `i` of a buffer, unless there is no byte at a place it reads or writes. -/
def storeByte (f : Filter) (components : Nat) (above raw buffer : List UInt8) (i : Nat) :
    Option (List UInt8) := do
  let stored ← raw[i]?
  let predicted ← f.predictIn components above buffer i
  if i < buffer.length then some (buffer.set i (stored + predicted)) else Option.none

/-- Reconstructs a row over a buffer, byte after byte. Pixels are no wider than the row. -/
def applyInPlace (f : Filter) (components : Nat) (above raw current : List UInt8) :
    Option (List UInt8) :=
  let count := f.reach above raw current
  (List.range count).foldlM (f.storeByte (min components count) above raw) current

theorem predictIn_eq (f : Filter) {components : Nat} {above buffer : List UInt8} {i : Nat}
    {left upper corner : UInt8} (hleft : readBefore components buffer i = some left)
    (hupper : f ≠ .sub → above[i]? = some upper)
    (hcorner : f ≠ .sub → readBefore components above i = some corner) :
    f.predictIn components above buffer i = some (f.predict left upper corner) := by
  cases f with
  | none => rfl
  | sub => exact hleft
  | up => exact hupper nofun
  | average => simp [predictIn, predict, hleft, hupper]
  | paeth => simp [predictIn, predict, hleft, hupper, hcorner]

theorem readBefore_min {components count : Nat} {row : List UInt8} {i : Nat} (near : i < count)
    (inside : i < row.length) :
    readBefore (min components count) row i = some (pixelBefore components row i) := by
  unfold readBefore pixelBefore
  by_cases first : i < components
  · have clamped : i < min components count := by omega
    simp [first, clamped]
  · have clamped : min components count = components := by omega
    have there : i - components < row.length := by omega
    simp [first, clamped, there]

section InPlace

variable (predicts : f ≠ .none) (above raw current : List UInt8)

include predicts

theorem getElem?_apply (components : Nat) {i : Nat} (inside : i < f.reach above raw current) :
    (f.apply components above raw current)[i]? = some (raw.getD i 0 + f.predict
      (pixelBefore components
        (if components = 0 then current else f.apply components above raw current) i)
      (above.getD i 0) (pixelBefore components above i)) := by
  have reach := reach_eq predicts above raw current
  have stored : i < raw.length := by omega
  have seen : i < (f.seenAbove above raw).length := by omega
  have old : i < current.length := by omega
  by_cases zero : components = 0
  · subst zero
    have front : i < (List.zipWith (fun pair old => pair.1 + f.predict old pair.2 pair.2)
        ((raw.take (f.reach above raw current)).zip
          ((f.seenAbove above raw).take (f.reach above raw current))) current).length := by
      rw [List.length_zipWith, length_stored predicts]
      omega
    rw [apply_eq predicts, if_pos rfl, if_pos rfl, List.getElem?_append_left front,
      List.getElem?_eq_getElem front]
    by_cases sub : f = .sub
    · subst sub
      simp [predict, pixelBefore, stored, old]
    · simp [seenAbove, sub] at seen
      simp [seenAbove, sub, pixelBefore, stored, old, seen]
  · have positive : 0 < components := Nat.pos_of_ne_zero zero
    have made := (reconstructed_apply predicts above raw current positive).getElem? i
    rw [List.getElem?_take_of_lt inside, List.getElem?_take_of_lt inside] at made
    rw [if_neg zero, made]
    simp [stored, inside, predict_eq_prediction,
      pixelBefore_take positive _ (Nat.le_of_lt inside)]

/-- The buffer after `n` bytes: new ones in front, old ones behind. -/
theorem storeByte_apply (components : Nat) {i : Nat} (inside : i < f.reach above raw current) :
    let made := f.apply components above raw current
    f.storeByte (min components (f.reach above raw current)) above raw
        (made.take i ++ current.drop i) i =
      some (made.take (i + 1) ++ current.drop (i + 1)) := by
  intro made
  have reach := reach_eq predicts above raw current
  have old : i < current.length := by omega
  have stored : raw[i]? = some (raw.getD i 0) := by
    have there : i < raw.length := by omega
    simp [there]
  obtain ⟨there, value⟩ := List.getElem?_eq_some_iff.mp
    (getElem?_apply predicts above raw current components inside)
  have front : (made.take i).length = i := by
    rw [List.length_take]
    exact Nat.min_eq_left (Nat.le_of_lt there)
  have room : i < (made.take i ++ current.drop i).length := by
    rw [List.length_append, front, List.length_drop]
    omega
  have left : readBefore (min components (f.reach above raw current))
      (made.take i ++ current.drop i) i =
      some (pixelBefore components (if components = 0 then current else made) i) := by
    rw [readBefore_min inside room]
    rcases Nat.eq_zero_or_pos components with rfl | positive
    · have behind : (made.take i).length ≤ i := Nat.le_of_eq front
      simp [pixelBefore, List.getElem?_append_right behind, front]
    · rw [if_neg (Nat.ne_of_gt positive), pixelBefore_append positive _ _ (Nat.le_of_eq front.symm),
        pixelBefore_take positive made (Nat.le_refl i)]
  have beside (other : f ≠ .sub) : i < above.length := by
    rw [seenAbove, if_neg other] at reach
    omega
  have upper (other : f ≠ .sub) : above[i]? = some (above.getD i 0) := by simp [beside other]
  have predicted := predictIn_eq f left upper fun other => readBefore_min inside (beside other)
  have written : (made.take i ++ current.drop i).set i made[i] =
      made.take (i + 1) ++ current.drop (i + 1) := by
    rw [List.set_append_right _ _ (Nat.le_of_eq front), front, Nat.sub_self,
      List.drop_eq_getElem_cons old, List.set_cons_zero, List.take_succ_eq_append_getElem there,
      List.append_assoc, List.singleton_append]
  rw [value] at written
  simp only [storeByte, stored, predicted, Option.bind_eq_bind, Option.bind_some, if_pos room]
  exact congrArg some written

/-- Byte after byte the buffer becomes what the filter makes, and every place is there. -/
theorem applyInPlace_eq (components : Nat) :
    f.applyInPlace components above raw current =
      some (f.apply components above raw current) := by
  have steps (n : Nat) (within : n ≤ f.reach above raw current) :
      (List.range n).foldlM
          (f.storeByte (min components (f.reach above raw current)) above raw) current =
        some ((f.apply components above raw current).take n ++ current.drop n) := by
    induction n with
    | zero => rfl
    | succ n ih =>
      rw [List.range_succ, List.foldlM_append, ih (Nat.le_of_succ_le within)]
      simp [storeByte_apply predicts above raw current components within]
  obtain ⟨-, behind⟩ := apply_frame predicts above raw current components
  rw [applyInPlace, steps _ (Nat.le_refl _), ← behind, List.take_append_drop]

end InPlace

/--
A filter other than the one that changes nothing works on buffers of any lengths. It reads and
writes only bytes that are there, and leaves the current buffer as it was behind the bytes that all
its buffers have. Those in front are the row that is stored, of pixels of at least one byte, and
depend on nothing but as many stored bytes and bytes above.
-/
theorem apply_confined (predicts : f ≠ .none) (components : Nat) (above raw current : List UInt8) :
    let count := f.reach above raw current
    let made := f.apply components above raw current
    f.applyInPlace components above raw current = some made ∧
    made.length = current.length ∧ made.drop count = current.drop count ∧
    (0 < components →
      (∀ row, f.Reconstructed components (above.take count) (raw.take count) row ↔
        row = made.take count) ∧
      ∀ above' raw' current' : List UInt8, count ≤ f.reach above' raw' current' →
        raw'.take count = raw.take count → (f ≠ .sub → above'.take count = above.take count) →
        (f.apply components above' raw' current').take count = made.take count) := by
  intro count made
  obtain ⟨length, behind⟩ := apply_frame predicts above raw current components
  refine ⟨applyInPlace_eq predicts above raw current components, length, behind, ?_⟩
  intro positive
  have here := reconstructed_apply predicts above raw current positive
  constructor
  · intro row
    constructor
    · exact fun same => same.unique positive here
    · rintro rfl
      exact here
  · intro above' raw' current' reaches sameRaw sameAbove
    have there := (reconstructed_apply predicts above' raw' current' positive).take positive count
    rw [List.take_take, List.take_take, List.take_take, Nat.min_eq_left reaches, sameRaw] at there
    by_cases sub : f = .sub
    · subst sub
      exact there.unique positive here
    · rw [sameAbove sub] at there
      exact there.unique positive here

/-- The row above is the shortest buffer, and pixels of four bytes are wider than what it leaves of
the row; only old bytes behind it differ from those of a fresh buffer. -/
theorem apply_confined_shortAbove :
    let above : List UInt8 := [10, 20, 30]
    let raw : List UInt8 := [1, 2, 3, 4, 5]
    let old : List UInt8 := [90, 91, 92, 93]
    Filter.paeth.applyInPlace 2 above raw old = some [11, 22, 33, 93] ∧
      Filter.average.applyInPlace 4 above raw old = some [6, 12, 18, 93] ∧
      Filter.sub.applyInPlace 0 above raw old = some [91, 93, 95, 97] ∧
      (Filter.paeth.apply 2 above raw (List.replicate 7 0)).take 3 = [11, 22, 33] := by
  intro above raw old
  obtain ⟨paeth, -, -, fresh⟩ := apply_confined (f := .paeth) nofun 2 above raw old
  obtain ⟨average, -⟩ := apply_confined (f := .average) nofun 4 above raw old
  obtain ⟨sub, -⟩ := apply_confined (f := .sub) nofun 0 above raw old
  obtain ⟨-, same⟩ := fresh (by decide)
  have alike := same above raw (List.replicate 7 0) (by decide) rfl fun _ => rfl
  exact ⟨paeth.trans (by decide), average.trans (by decide), sub.trans (by decide),
    alike.trans (by decide)⟩

end Filter

end PackageAssets.Png
