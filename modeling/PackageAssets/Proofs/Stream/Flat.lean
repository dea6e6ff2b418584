import PackageAssets.Proofs.Bytes.Stored
import PackageAssets.Proofs.Stream.Overwrite
import PackageAssets.Stream.Access

/-!
# Flat arrays

An array of bytes without end that holds zeros behind its length says what every
access to a source does. Only for an empty write beyond the length there are two
rules: either the array gets longer, or nothing happens.
-/
namespace PackageAssets

/-- Bytes at all positions, of which those before the length were written. -/
structure Flat where
  length : Nat
  cell : Nat → UInt8

namespace Flat

open Access (Reply)

def ofBytes (content : List UInt8) : Flat := ⟨content.length, fun i => content.getD i 0⟩

/-- The bytes from `position` on, up to `count` of them and not beyond the length. -/
def read (f : Flat) (position count : Nat) : List UInt8 :=
  (List.range (min count (f.length - position))).map fun i => f.cell (position + i)

/-- The bytes put at `position`, and a length that covers them. -/
def write (f : Flat) (position : Nat) (data : List UInt8) : Flat where
  length := max f.length (position + data.length)
  cell i :=
    if position ≤ i ∧ i < position + data.length then data.getD (i - position) 0 else f.cell i

/-- An access. Whether an empty write beyond the length makes the array longer is up to `grows`. -/
def access (grows : Bool) : Access → Flat → Reply × Flat
  | .read position count, f => (.bytes (f.read position count), f)
  | .write position data, f =>
    (.written, if data = [] ∧ grows = false then f else f.write position data)
  | .length, f => (.length f.length, f)

variable (content : List UInt8)

theorem ofBytes_injective {a b : List UInt8} (same : ofBytes a = ofBytes b) : a = b := by
  have length : a.length = b.length := congrArg Flat.length same
  refine List.ext_getElem length fun i inside inside' => ?_
  have cell := congrFun (congrArg Flat.cell same) i
  simpa [ofBytes, inside, inside'] using cell

theorem read_ofBytes (position count : Nat) :
    (ofBytes content).read position count = Source.bytesAt content position count := by
  have size : (Source.bytesAt content position count).length =
      min count (content.length - position) := by
    rw [Source.bytesAt, List.length_take, List.length_drop]
  refine List.ext_getElem (by simp [read, ofBytes, size]) fun i inside inside' => ?_
  rw [size] at inside'
  have there : position + i < content.length := by omega
  simp [read, ofBytes, Source.bytesAt, there]

/-- A write changes the cells it puts bytes in, and no others. -/
theorem ofBytes_overwrite (position : Nat) (data : List UInt8) :
    ofBytes (Source.overwrite content position data) = (ofBytes content).write position data := by
  have cells : ∀ i, (Source.overwrite content position data).getD i 0 =
      if position ≤ i ∧ i < position + data.length then data.getD (i - position) 0
      else content.getD i 0 := by
    intro i
    rcases Nat.lt_or_ge i position with before | behind
    · rw [if_neg (by omega), List.getD_eq_getElem?_getD, List.getD_eq_getElem?_getD,
        Source.getElem?_overwrite_of_lt _ _ _ before]
      split
      · rfl
      case isFalse outside => rw [List.getElem?_eq_none (Nat.le_of_not_lt outside)]; rfl
    · obtain ⟨k, rfl⟩ := Nat.exists_eq_add_of_le behind
      rw [List.getD_eq_getElem?_getD, Source.getElem?_overwrite_add, Nat.add_sub_cancel_left]
      by_cases inside : k < data.length
      · rw [if_pos inside, if_pos (by omega), List.getD_eq_getElem?_getD]
      · rw [if_neg inside, if_neg (by omega), List.getD_eq_getElem?_getD]
  have length := Source.length_overwrite content position data
  rw [ofBytes, write, length, Nat.max_comm]
  exact congrArg (Flat.mk _) (funext cells)

end Flat

end PackageAssets
