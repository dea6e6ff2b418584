import PackageAssets.Proofs.Stream.Steps

/-!
# One request after another

A reader can be asked again, also after a request that failed: the next one
starts from what the last one left behind. What every request keeps holds
after all of them.
-/
namespace PackageAssets

variable {ε σ α ρ : Type}

/-- What came of a step. -/
def outcomeOf : EStateM.Result ε σ α → Except ε α
  | .ok a _ => .ok a
  | .error e _ => .error e

/-- What a step leaves behind, whether or not it failed. -/
def leftBy : EStateM.Result ε σ α → σ
  | .ok _ s => s
  | .error _ s => s

namespace Reading

/-- The outcomes of requests, in order, and the reader after them. -/
def askAll (ask : ρ → ReadingM ε σ α) : List ρ → Reading σ → List (Except ε α) × Reading σ
  | [], r => ([], r)
  | request :: rest, r =>
    let result := ask request r
    let (others, last) := askAll ask rest (leftBy result)
    (outcomeOf result :: others, last)

theorem askAll_keeps {ask : ρ → ReadingM ε σ α} {P : Reading σ → Prop}
    (step : ∀ request r, P r → P (leftBy (ask request r))) {r : Reading σ} (start : P r)
    (requests : List ρ) : P (askAll ask requests r).2 := by
  induction requests generalizing r with
  | nil => exact start
  | cons request rest ih => exact ih (step request r start)

end Reading

end PackageAssets
