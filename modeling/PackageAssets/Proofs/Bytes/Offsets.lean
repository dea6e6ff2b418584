import PackageAssets.Proofs.Bytes.Stored
import Mathlib.Algebra.GroupWithZero.Nat

/-!
# Things in a row

Things of given sizes that stand in a row, each where the one before it ends, do
not overlap, leave no gap, and are found at the sum of the sizes in front.
-/
namespace PackageAssets

/-- Where a thing starts: behind all those in front of it. -/
def offsetAt (sizes : List Nat) (i : Nat) : Nat := (sizes.take i).sum

section Sizes

variable {sizes : List Nat}

@[simp] theorem offsetAt_zero (sizes : List Nat) : offsetAt sizes 0 = 0 := rfl

@[simp] theorem offsetAt_cons_succ (size i : Nat) :
    offsetAt (size :: sizes) (i + 1) = size + offsetAt sizes i := by
  rw [offsetAt, List.take_succ_cons, List.sum_cons, offsetAt]

theorem offsetAt_succ {i : Nat} (inside : i < sizes.length) :
    offsetAt sizes (i + 1) = offsetAt sizes i + sizes[i] := by
  rw [offsetAt, List.take_succ_eq_append_getElem inside, List.sum_append, offsetAt]
  simp

theorem offsetAt_length (sizes : List Nat) : offsetAt sizes sizes.length = sizes.sum := by
  rw [offsetAt, List.take_length]

theorem offsetAt_mono {i j : Nat} (before : i ≤ j) : offsetAt sizes i ≤ offsetAt sizes j := by
  induction sizes generalizing i j with
  | nil => simp [offsetAt]
  | cons size sizes ih =>
    cases i with
    | zero => exact Nat.zero_le _
    | succ i =>
      cases j with
      | zero => exact absurd before (Nat.not_succ_le_zero i)
      | succ j =>
        rw [offsetAt_cons_succ, offsetAt_cons_succ]
        exact Nat.add_le_add_left (ih (Nat.le_of_succ_le_succ before)) size

/-- A thing ends where a later one starts, or in front of it. -/
theorem offsetAt_add_le {i j : Nat} (before : i < j) (inside : i < sizes.length) :
    offsetAt sizes i + sizes[i] ≤ offsetAt sizes j := by
  rw [← offsetAt_succ inside]
  exact offsetAt_mono before

/-- Each place in front of the end belongs to a thing. -/
theorem exists_offsetAt {place : Nat} (inside : place < sizes.sum) :
    ∃ i, ∃ h : i < sizes.length,
      offsetAt sizes i ≤ place ∧ place < offsetAt sizes i + sizes[i] := by
  induction sizes generalizing place with
  | nil => exact absurd inside (Nat.not_lt_zero place)
  | cons size sizes ih =>
    by_cases first : place < size
    · exact ⟨0, Nat.zero_lt_succ _, Nat.zero_le _, by simpa using first⟩
    · rw [List.sum_cons] at inside
      have behind : place - size < sizes.sum := by omega
      obtain ⟨i, low, start, stop⟩ := ih behind
      refine ⟨i + 1, Nat.succ_lt_succ low, ?_, ?_⟩
      · rw [offsetAt_cons_succ]
        omega
      · rw [offsetAt_cons_succ, List.getElem_cons_succ]
        omega

theorem dvd_offsetAt {n : Nat} (all : ∀ size ∈ sizes, n ∣ size) (i : Nat) :
    n ∣ offsetAt sizes i := by
  induction sizes generalizing i with
  | nil => simp [offsetAt]
  | cons size sizes ih =>
    obtain ⟨first, others⟩ := List.forall_mem_cons.mp all
    cases i with
    | zero => exact Nat.dvd_zero n
    | succ i =>
      rw [offsetAt_cons_succ]
      exact Nat.dvd_add first (ih others i)

end Sizes

/-- A thing is found where it starts, whatever is behind the row. -/
theorem take_drop_flatMap {α β : Type} (f : α → List β) (l : List α) (rest : List β) {i : Nat}
    (inside : i < l.length) :
    ((l.flatMap f ++ rest).drop (offsetAt (l.map fun a => (f a).length) i)).take
      (f l[i]).length = f l[i] := by
  induction l generalizing i with
  | nil => exact absurd inside (Nat.not_lt_zero i)
  | cons a l ih =>
    rw [List.flatMap_cons, List.append_assoc, List.map_cons]
    cases i with
    | zero => exact List.take_left
    | succ i =>
      rw [offsetAt_cons_succ, ← List.drop_drop, List.drop_left, List.getElem_cons_succ]
      exact ih (Nat.lt_of_succ_lt_succ inside)

end PackageAssets
