/-!
# Blocks of a list

`blocks size count l` cuts `count` blocks of `size` entries off the front of
`l`, in order. Blocks past the end of `l` are short or empty, and what follows
the last block is left out.
-/
namespace PackageAssets

def blocksOnto {α : Type} (size : Nat) :
    (count : Nat) → List α → (done : List (List α)) → List (List α)
  | 0, _, done => done.reverse
  | count + 1, l, done => blocksOnto size count (l.drop size) (l.take size :: done)

def blocks {α : Type} (size count : Nat) (l : List α) : List (List α) :=
  blocksOnto size count l []

theorem blocksOnto_eq {α : Type} (size count : Nat) (l : List α) (done : List (List α)) :
    blocksOnto size count l done = done.reverse ++ blocks size count l := by
  induction count generalizing l done with
  | zero => simp [blocks, blocksOnto]
  | succ n ih =>
    rw [blocks, blocksOnto, blocksOnto, ih, ih (l.drop size) [l.take size]]
    simp

theorem blocks_zero {α : Type} (size : Nat) (l : List α) : blocks size 0 l = [] := rfl

theorem blocks_succ {α : Type} (size count : Nat) (l : List α) :
    blocks size (count + 1) l = l.take size :: blocks size count (l.drop size) := by
  rw [blocks, blocksOnto, blocksOnto_eq]
  simp

theorem length_blocks {α : Type} (size count : Nat) (l : List α) :
    (blocks size count l).length = count := by
  induction count generalizing l with
  | zero => rfl
  | succ n ih => simp [blocks_succ, ih]

theorem flatten_blocks {α : Type} (size count : Nat) (l : List α) :
    (blocks size count l).flatten = l.take (count * size) := by
  induction count generalizing l with
  | zero => simp [blocks_zero]
  | succ n ih =>
    rw [blocks_succ, List.flatten_cons, ih, Nat.succ_mul, Nat.add_comm (n * size),
      List.take_add]

theorem length_of_mem_blocks {α : Type} {size count : Nat} {l b : List α}
    (enough : count * size ≤ l.length) (h : b ∈ blocks size count l) : b.length = size := by
  induction count generalizing l with
  | zero => simp [blocks_zero] at h
  | succ n ih =>
    rw [Nat.succ_mul] at enough
    rw [blocks_succ, List.mem_cons] at h
    rcases h with rfl | h
    · rw [List.length_take]
      omega
    · refine ih ?_ h
      rw [List.length_drop]
      omega

end PackageAssets
