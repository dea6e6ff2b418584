import PackageAssets.Proofs.Stream.InStep
import PackageAssets.Stream.Bits

/-!
# What a step does not look at

A step overlooks a change of its state if it does the same after the change as
before, and leaves the change in place. Readers of whole bytes overlook the bits
that are pending of an earlier byte.
-/
namespace PackageAssets

variable {ε σ α β : Type}

/-- The same result, with a change made to the state that is left. -/
def leaving (change : σ → σ) : EStateM.Result ε σ α → EStateM.Result ε σ α
  | .ok a s => .ok a (change s)
  | .error e s => .error e (change s)

/-- The step takes no notice of the change and leaves it in place. -/
def Overlooks (change : σ → σ) (step : EStateM ε σ α) : Prop :=
  ∀ s, step (change s) = leaving change (step s)

theorem outcomeOf_leaving (change : σ → σ) (result : EStateM.Result ε σ α) :
    outcomeOf (leaving change result) = outcomeOf result := by
  cases result <;> rfl

theorem leftBy_leaving (change : σ → σ) (result : EStateM.Result ε σ α) :
    leftBy (leaving change result) = change (leftBy result) := by
  cases result <;> rfl

section Sequence

variable {change : σ → σ}

theorem overlooks_pure (a : α) : Overlooks change (pure a : EStateM ε σ α) := fun _ => rfl

theorem overlooks_throw (e : ε) : Overlooks change (throw e : EStateM ε σ α) := fun _ => rfl

theorem Overlooks.bind {step : EStateM ε σ α} {next : α → EStateM ε σ β}
    (first : Overlooks change step) (rest : ∀ a, Overlooks change (next a)) :
    Overlooks change (step >>= next) := by
  intro s
  have here := first s
  cases ran : step s with
  | ok a t =>
    rw [ran] at here
    rw [bind_of_ok here, bind_of_ok ran]
    exact rest a t
  | error e t =>
    rw [ran] at here
    rw [bind_of_error here, bind_of_error ran]
    rfl

/-- What is looked up of the state is the same without the change. -/
theorem overlooks_get {next : σ → EStateM ε σ β} (blind : ∀ s, next (change s) = next s)
    (rest : ∀ s, Overlooks change (next s)) : Overlooks change (get >>= next) := by
  intro s
  change next (change s) (change s) = leaving change (next s s)
  rw [blind]
  exact rest s s

theorem overlooks_ite {c : Prop} [Decidable c] {step other : EStateM ε σ α}
    (yes : Overlooks change step) (no : Overlooks change other) :
    Overlooks change (if c then step else other) := by
  split
  · exact yes
  · exact no

/-- A check that stops with a failure. -/
theorem overlooks_check {c : Prop} [Decidable c] {e : ε} {next : α → EStateM ε σ β}
    {other : EStateM ε σ β} (passed : Overlooks change other) :
    Overlooks change (if c then throw e >>= next else other) :=
  overlooks_ite (fun _ => rfl) passed

/-- A step that is taken under a condition, and what comes next in either case. -/
theorem overlooks_optional {c : Prop} [Decidable c] {step : EStateM ε σ Unit}
    {next : Unit → EStateM ε σ β} (first : Overlooks change step)
    (rest : Overlooks change (next ())) :
    Overlooks change (if c then step >>= next else next ()) :=
  overlooks_ite (first.bind fun _ => rest) rest

end Sequence

/-! ### Streams -/

namespace Stream

variable {pending : PendingBits}

theorem overlooks_readBytes (count : Nat) :
    Overlooks (withPending · pending) (readBytes count) := by
  intro s
  unfold readBytes
  dsimp only
  have limit : (s.withPending pending).allowance count = s.allowance count := rfl
  have read : (s.withPending pending).source.readAt (s.withPending pending).absolute
      (s.allowance count) = s.source.readAt s.absolute (s.allowance count) := rfl
  rw [limit, read]
  split
  · rfl
  · cases s.source.readAt s.absolute (s.allowance count) <;> rfl

theorem overlooks_readExact (count : Nat) :
    Overlooks (withPending · pending) (readExact count) := by
  intro s
  unfold readExact
  rw [overlooks_readBytes count s]
  cases readBytes count s with
  | error e t => rfl
  | ok bytes t =>
    dsimp only [leaving]
    split <;> rfl

theorem overlooks_readNat (order : ByteOrder) (width : Nat) :
    Overlooks (withPending · pending) (readNat order width) :=
  (overlooks_readExact width).bind fun _ => overlooks_pure _

theorem overlooks_readStream (count : Nat) :
    Overlooks (withPending · pending) (readStream count) := by
  intro s
  unfold readStream
  dsimp only
  have remaining : (s.withPending pending).remaining = s.remaining := rfl
  have view : (s.withPending pending).slice (.included (s.withPending pending).position)
      (.excluded ((s.withPending pending).position + count)) =
        s.slice (.included s.position) (.excluded (s.position + count)) := rfl
  rw [remaining, view]
  split
  · rfl
  · cases s.slice (.included s.position) (.excluded (s.position + count)) <;> rfl

theorem overlooks_setPosition (position : Nat) :
    Overlooks (withPending · pending) (setPosition position) := fun _ => rfl

end Stream

/-! ### Readers -/

namespace Reading

/-- The reader with other bits pending on its stream. -/
def withPending (pending : PendingBits) (r : Reading σ) : Reading σ :=
  { r with stream := r.stream.withPending pending }

variable {pending : PendingBits}

theorem overlooks_onStream [OfIoError ε] {step : StreamM α}
    (overlooks : Overlooks (Stream.withPending · pending) step) :
    Overlooks (withPending pending) (onStream step : ReadingM ε σ α) := by
  intro r
  have same : step (r.withPending pending).stream = leaving _ (step r.stream) := overlooks r.stream
  unfold onStream
  rw [same]
  cases step r.stream <;> rfl

theorem overlooks_soFar : Overlooks (withPending pending) (soFar : ReadingM ε σ σ) := fun _ => rfl

theorem overlooks_modifyFound (f : σ → σ) :
    Overlooks (withPending pending) (modifyFound f : ReadingM ε σ Unit) := fun _ => rfl

theorem overlooks_note (level : Level) (origin : Origin) (text : String) :
    Overlooks (withPending pending) (note level origin text : ReadingM ε σ Unit) := fun _ => rfl

/-- Requests that overlook a change are answered alike with it and without. -/
theorem askAll_overlooks {ρ : Type} {ask : ρ → ReadingM ε σ α} {change : Reading σ → Reading σ}
    (step : ∀ request, Overlooks change (ask request)) (requests : List ρ) (r : Reading σ) :
    askAll ask requests (change r) =
      ((askAll ask requests r).1, change (askAll ask requests r).2) := by
  induction requests generalizing r with
  | nil => rfl
  | cons request requests ih =>
    rw [askAll, askAll, step request r, outcomeOf_leaving, leftBy_leaving, ih]

end Reading

end PackageAssets
