import Mathlib.Algebra.Group.Nat.Defs
import PackageAssets.Bytes.Blocks
import PackageAssets.Bytes.Order

/-!
# Numbers and blocks read back

A number that fits its width is read back from the bytes it was written to,
and bytes are the number they are read as: writing and reading are inverse in
both orders. Blocks laid side by side are cut apart again, whatever follows.
-/
namespace PackageAssets

namespace ByteOrder

theorem ofLittle_toLittle {width n : Nat} (fits : n < 256 ^ width) :
    ofLittle (toLittle width n) = n := by
  induction width generalizing n with
  | zero =>
    have : n = 0 := by simpa using fits
    simp [toLittle, ofLittle, this]
  | succ w ih =>
    have high : n / 256 < 256 ^ w := by
      rw [Nat.pow_succ] at fits
      omega
    rw [toLittle, ofLittle, ih high, UInt8.toNat_ofNat']
    omega

theorem toLittle_ofLittle (bytes : List UInt8) :
    toLittle bytes.length (ofLittle bytes) = bytes := by
  induction bytes with
  | nil => rfl
  | cons b rest ih =>
    have hb := b.toNat_lt
    have low : UInt8.ofNat (b.toNat + 256 * ofLittle rest) = b := by
      apply UInt8.toNat_inj.mp
      rw [UInt8.toNat_ofNat']
      omega
    have high : (b.toNat + 256 * ofLittle rest) / 256 = ofLittle rest := by omega
    rw [List.length_cons, ofLittle, toLittle, low, high, ih]

theorem ofLittle_lt (bytes : List UInt8) : ofLittle bytes < 256 ^ bytes.length := by
  induction bytes with
  | nil => simp [ofLittle]
  | cons b rest ih =>
    have hb := b.toNat_lt
    rw [List.length_cons, Nat.pow_succ, ofLittle]
    omega

theorem read_write (order : ByteOrder) {width n : Nat} (fits : n < 256 ^ width) :
    order.read (order.write width n) = n := by
  cases order with
  | little => exact ofLittle_toLittle fits
  | big => simpa [read, write] using ofLittle_toLittle fits

theorem write_read (order : ByteOrder) (bytes : List UInt8) :
    order.write bytes.length (order.read bytes) = bytes := by
  cases order with
  | little => exact toLittle_ofLittle bytes
  | big =>
    have h := toLittle_ofLittle bytes.reverse
    rw [List.length_reverse] at h
    simp [read, write, h]

theorem read_lt (order : ByteOrder) (bytes : List UInt8) :
    order.read bytes < 256 ^ bytes.length := by
  cases order with
  | little => exact ofLittle_lt bytes
  | big => simpa [read] using ofLittle_lt bytes.reverse

end ByteOrder

namespace IntFormat

/-- A signed number of the format's range, read back from where it is stored. -/
theorem decode_encode_signed {f : IntFormat} (signed : f.signed) {value : Int}
    (low : -f.modulus ≤ 2 * value) (high : 2 * value < f.modulus) :
    f.decode (f.encode value) = value := by
  have fits : (value % (f.modulus : Int)).toNat < f.modulus := by
    have below := Int.emod_lt_of_pos value (by omega : (0 : Int) < f.modulus)
    have above := Int.emod_nonneg value (by omega : (f.modulus : Int) ≠ 0)
    omega
  change f.interpret (f.order.read (f.order.write f.width (value % (f.modulus : Int)).toNat)) =
    value
  rw [ByteOrder.read_write _ fits, interpret]
  by_cases negative : value < 0
  · have stored : value % (f.modulus : Int) = value + f.modulus := by
      rw [← Int.add_emod_right]
      exact Int.emod_eq_of_lt (by omega) (by omega)
    rw [stored, if_pos ⟨signed, by omega⟩]
    omega
  · have stored : value % (f.modulus : Int) = value := Int.emod_eq_of_lt (by omega) (by omega)
    rw [stored, if_neg (by omega)]
    omega

/-- A signed number that was read is of the format's range. -/
theorem decode_bounds {f : IntFormat} (signed : f.signed) {bytes : List UInt8}
    (size : bytes.length = f.width) :
    -f.modulus ≤ 2 * f.decode bytes ∧ 2 * f.decode bytes < f.modulus := by
  have fits := f.order.read_lt bytes
  rw [size, ← modulus] at fits
  rw [decode, interpret]
  split
  · omega
  case isFalse low =>
    have low : ¬f.modulus ≤ 2 * f.order.read bytes := fun high => low ⟨signed, high⟩
    omega

end IntFormat

theorem exists_split {α : Type} {l : List α} {n : Nat} (enough : n ≤ l.length) :
    ∃ front rest, l = front ++ rest ∧ front.length = n :=
  ⟨l.take n, l.drop n, (List.take_append_drop n l).symm, List.length_take_of_le enough⟩

theorem blocks_flatten_append {α : Type} {size : Nat} {parts : List (List α)}
    (sized : ∀ part ∈ parts, part.length = size) (rest : List α) :
    blocks size parts.length (parts.flatten ++ rest) = parts := by
  induction parts with
  | nil => rfl
  | cons part others ih =>
    have hpart : part.length = size := sized part List.mem_cons_self
    have hothers := ih fun other h => sized other (List.mem_cons_of_mem part h)
    rw [List.length_cons, blocks_succ, List.flatten_cons, List.append_assoc,
      List.take_left' hpart, List.drop_left' hpart, hothers]

theorem length_flatten_of_sized {α : Type} {size : Nat} {parts : List (List α)}
    (sized : ∀ part ∈ parts, part.length = size) :
    parts.flatten.length = size * parts.length := by
  induction parts with
  | nil => rfl
  | cons part others ih =>
    obtain ⟨first, rest⟩ := List.forall_mem_cons.mp sized
    rw [List.flatten_cons, List.length_append, first, ih rest, List.length_cons, Nat.mul_succ,
      Nat.add_comm]

theorem length_flatMap_of_sized {α β : Type} {size : Nat} {f : β → List α}
    (sized : ∀ b, (f b).length = size) (l : List β) :
    (l.flatMap f).length = size * l.length := by
  have parts : ∀ part ∈ l.map f, part.length = size := by
    intro part hpart
    obtain ⟨b, -, rfl⟩ := List.mem_map.mp hpart
    exact sized b
  rw [List.flatMap_def, length_flatten_of_sized parts, List.length_map]

theorem blocks_eq_map {α : Type} (size count : Nat) (l : List α) :
    blocks size count l = (List.range count).map fun i => (l.drop (i * size)).take size := by
  induction count generalizing l with
  | zero => rfl
  | succ n ih =>
    rw [blocks_succ, ih, List.range_succ_eq_map, List.map_cons, List.map_map, Nat.zero_mul,
      List.drop_zero]
    congr 2
    funext i
    rw [Function.comp_apply, List.drop_drop, Nat.succ_mul, Nat.add_comm size]

theorem blocks_add {α : Type} (size front back : Nat) (l : List α) :
    blocks size (front + back) l =
      blocks size front l ++ blocks size back (l.drop (front * size)) := by
  induction front generalizing l with
  | zero => simp [blocks_zero]
  | succ n ih =>
    rw [Nat.succ_add, blocks_succ, ih, blocks_succ, List.drop_drop, Nat.succ_mul,
      Nat.add_comm size]
    rfl

theorem headD_take_drop {α : Type} {n : Nat} (positive : 0 < n) (l : List α) (i : Nat) (d : α) :
    ((l.drop i).take n).headD d = l.getD i d := by
  rw [List.headD_eq_head?_getD, List.head?_take, if_neg (by omega), List.head?_drop,
    List.getD_eq_getElem?_getD]

theorem take_drop_eq_map {α : Type} {l : List α} {i n : Nat} (inside : i + n ≤ l.length)
    (outside : α) : (l.drop i).take n = (List.range n).map fun k => l.getD (i + k) outside := by
  apply List.ext_getElem
  · rw [List.length_take, List.length_drop, List.length_map, List.length_range]
    omega
  · intro k _ hk
    rw [List.length_map, List.length_range] at hk
    rw [List.getElem_take, List.getElem_drop, List.getElem_map, List.getElem_range,
      List.getD_eq_getElem?_getD, List.getElem?_eq_getElem (by omega), Option.getD_some]

/-- The blocks of a list that is long enough hold it up to its last full block. -/
theorem flatten_blocks_ceil {α : Type} {size : Nat} (positive : 0 < size) (l : List α) :
    (blocks size ((l.length + size - 1) / size) l).flatten = l := by
  rw [flatten_blocks]
  apply List.take_of_length_le
  have h := Nat.div_add_mod (l.length + size - 1) size
  have hmod := Nat.mod_lt (l.length + size - 1) positive
  rw [Nat.mul_comm] at h
  omega

end PackageAssets
