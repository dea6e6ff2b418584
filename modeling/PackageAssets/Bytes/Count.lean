/-!
# Counts of 64 bits

Positions, lengths and sizes are natural numbers below `Count.bound`. Each
operation says what happens at the bound: `add?` and `mul?` refuse, `clamp`
stops at the largest count. Nothing here wraps.
-/

namespace PackageAssets.Count

/-- The first number that is no longer a count: the 64th power of two. -/
def bound : Nat := 0x10000000000000000

/-- The largest count. -/
def top : Nat := 0xFFFFFFFFFFFFFFFF

def clamp (n : Nat) : Nat := min n top

def add? (a b : Nat) : Option Nat := if a + b < bound then some (a + b) else none

def mul? (a b : Nat) : Option Nat := if a * b < bound then some (a * b) else none

/-- Moves a count by a signed distance, if the result is a count. -/
def offset? (a : Nat) (distance : Int) : Option Nat :=
  let moved : Int := a + distance
  if 0 ≤ moved ∧ moved < bound then some moved.toNat else none

theorem add?_eq_some {a b c : Nat} : add? a b = some c ↔ a + b = c ∧ c < bound := by
  unfold add?
  constructor
  · intro h
    split at h
    · simp_all
    · cases h
  · rintro ⟨rfl, hc⟩
    simp [hc]

theorem mul?_eq_some {a b c : Nat} : mul? a b = some c ↔ a * b = c ∧ c < bound := by
  unfold mul?
  constructor
  · intro h
    split at h
    · simp_all
    · cases h
  · rintro ⟨rfl, hc⟩
    simp [hc]

theorem clamp_of_le {n : Nat} (h : n ≤ top) : clamp n = n := Nat.min_eq_left h

end PackageAssets.Count
