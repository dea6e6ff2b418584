import PackageAssets.Proofs.Stream.Requests

/-!
# Two runs in step

Two runs are in step when both succeed, with results that belong together, or
both fail, with the same failure. Sequences of steps that are in step are in
step, and so are requests one after another; a run next to itself shows what
it can fail with. The failures that may occur, and what is kept of the states,
are parameters.
-/
namespace PackageAssets

variable {ε σ α β : Type}

/--
Both runs succeed and `made` holds of what they yield and leave, or both fail with one `admitted`
failure and leave states that are `kept` together.
-/
inductive InStep (admitted : ε → Prop) (kept : σ → σ → Prop) (made : α → α → σ → σ → Prop) :
    EStateM.Result ε σ α → EStateM.Result ε σ α → Prop where
  | ok {a b : α} {s t : σ} (together : made a b s t) : InStep admitted kept made (.ok a s) (.ok b t)
  | error {e : ε} {s t : σ} (known : admitted e) (together : kept s t) :
      InStep admitted kept made (.error e s) (.error e t)

/-- One result of both runs, and states that are kept together. -/
def Equally (kept : σ → σ → Prop) (a b : α) (s t : σ) : Prop := a = b ∧ kept s t

namespace InStep

section Sequence

variable {admitted : ε → Prop} {kept : σ → σ → Prop} {made : α → α → σ → σ → Prop}
  {later : β → β → σ → σ → Prop} {s t : σ}

theorem bind {x y : EStateM ε σ α} {f g : α → EStateM ε σ β}
    (first : InStep admitted kept made (x s) (y t))
    (next : ∀ a b s t, made a b s t → InStep admitted kept later (f a s) (g b t)) :
    InStep admitted kept later ((x >>= f) s) ((y >>= g) t) := by
  generalize left : x s = ran, right : y t = beside at first
  cases first with
  | ok together =>
    rw [bind_of_ok left, bind_of_ok right]
    exact next _ _ _ _ together
  | error known together =>
    rw [bind_of_error left, bind_of_error right]
    exact .error known together

/-- After one result the runs go on with it. -/
theorem next {x y : EStateM ε σ α} {f g : α → EStateM ε σ β}
    (first : InStep admitted kept (Equally kept) (x s) (y t))
    (rest : ∀ a s t, kept s t → InStep admitted kept later (f a s) (g a t)) :
    InStep admitted kept later ((x >>= f) s) ((y >>= g) t) := by
  refine first.bind ?_
  rintro a _ s t ⟨rfl, together⟩
  exact rest a s t together

theorem pure (together : kept s t) (a : α) :
    InStep admitted kept (Equally kept) ((Pure.pure a : EStateM ε σ α) s)
      ((Pure.pure a : EStateM ε σ α) t) := .ok ⟨rfl, together⟩

/-- The runs stop, whatever would have come next. -/
theorem stop {e : ε} (known : admitted e) (together : kept s t) {f g : α → EStateM ε σ β} :
    InStep admitted kept later (((throw e : EStateM ε σ α) >>= f) s)
      (((throw e : EStateM ε σ α) >>= g) t) := .error known together

theorem ite {c : Prop} [Decidable c] {x y x' y' : EStateM ε σ α}
    (yes : c → InStep admitted kept made (x s) (y t))
    (no : ¬c → InStep admitted kept made (x' s) (y' t)) :
    InStep admitted kept made ((if c then x else x') s) ((if c then y else y') t) := by
  by_cases h : c
  · rw [if_pos h, if_pos h]
    exact yes h
  · rw [if_neg h, if_neg h]
    exact no h

/-- A step that is taken under a condition, and what comes next in either case. -/
theorem optional {c : Prop} [Decidable c] {x y : EStateM ε σ Unit} {f g : Unit → EStateM ε σ β}
    (together : kept s t)
    (step : c → InStep admitted kept (Equally kept) (x s) (y t))
    (rest : ∀ s t, kept s t → InStep admitted kept later (f () s) (g () t)) :
    InStep admitted kept later ((if c then x >>= f else f ()) s)
      ((if c then y >>= g else g ()) t) := by
  refine .ite (fun h => ?_) fun _ => rest s t together
  exact (step h).next fun _ s t together => rest s t together

theorem mono {admitted' : ε → Prop} {kept' : σ → σ → Prop} {made' : α → α → σ → σ → Prop}
    {x y : EStateM.Result ε σ α} (run : InStep admitted kept made x y)
    (errors : ∀ e, admitted e → admitted' e) (states : ∀ s t, kept s t → kept' s t)
    (results : ∀ a b s t, made a b s t → made' a b s t) : InStep admitted' kept' made' x y := by
  cases run with
  | ok together => exact .ok (results _ _ _ _ together)
  | error known together => exact .error (errors _ known) (states _ _ together)

theorem weaken {admitted' : ε → Prop} {x y : EStateM.Result ε σ α}
    (run : InStep admitted kept made x y) (errors : ∀ e, admitted e → admitted' e) :
    InStep admitted' kept made x y :=
  run.mono errors (fun _ _ together => together) fun _ _ _ _ together => together

/-- Of steps that yield nothing only the states matter. -/
theorem done {made : Unit → Unit → σ → σ → Prop} {x y : EStateM.Result ε σ Unit}
    (run : InStep admitted kept made x y) (leaves : ∀ s t, made () () s t → kept s t) :
    InStep admitted kept (Equally kept) x y :=
  run.mono (fun _ known => known) (fun _ _ together => together)
    fun _ _ s t together => ⟨rfl, leaves s t together⟩

end Sequence

section Results

variable {admitted : ε → Prop} {kept : σ → σ → Prop} {x y : EStateM.Result ε σ α}

theorem outcomeOf_eq (run : InStep admitted kept (Equally kept) x y) :
    outcomeOf x = outcomeOf y := by
  cases run with
  | ok together => exact congrArg Except.ok together.1
  | error => rfl

theorem leftBy_kept (run : InStep admitted kept (Equally kept) x y) :
    kept (leftBy x) (leftBy y) := by
  cases run with
  | ok together => exact together.2
  | error _ together => exact together

/-- What the other run does when one succeeds. -/
theorem of_ok {made : α → α → σ → σ → Prop} (run : InStep admitted kept made x y) {a : α} {s : σ}
    (succeeded : x = .ok a s) : ∃ b t, y = .ok b t ∧ made a b s t := by
  cases run with
  | ok together =>
    cases succeeded
    exact ⟨_, _, rfl, together⟩
  | error => cases succeeded

theorem admitted_of_outcome {made : α → α → σ → σ → Prop} (run : InStep admitted kept made x y)
    {e : ε} (failed : outcomeOf x = .error e) : admitted e := by
  cases run with
  | ok together => cases failed
  | error known together =>
    cases failed
    exact known

end Results

end InStep

/-! ### Readers -/

namespace Reading

/-- Readers of streams that belong together, with what they found and the same notes. -/
structure Alike (streams : Stream → Stream → Prop) (finds : σ → σ → Prop) (r r' : Reading σ) :
    Prop where
  stream : streams r.stream r'.stream
  found : finds r.found r'.found
  notes : r.notes = r'.notes

variable {admitted : ε → Prop} {streams : Stream → Stream → Prop} {finds : σ → σ → Prop}
  {r r' : Reading σ}

theorem onStream_inStep [OfIoError ε] {causes : IoError → Prop}
    {made : α → α → Stream → Stream → Prop} {x y : StreamM α} (alike : Alike streams finds r r')
    (known : ∀ e, causes e → admitted (OfIoError.ofIo e))
    (run : InStep causes streams made (x r.stream) (y r'.stream)) :
    InStep admitted (Alike streams finds)
      (fun a b s s' => made a b s.stream s'.stream ∧ finds s.found s'.found ∧ s.notes = s'.notes)
      ((onStream x : ReadingM ε σ α) r) ((onStream y : ReadingM ε σ α) r') := by
  unfold onStream
  generalize x r.stream = left at run ⊢
  generalize y r'.stream = right at run ⊢
  cases run with
  | ok together => exact .ok ⟨together, alike.found, alike.notes⟩
  | error cause together => exact .error (known _ cause) ⟨together, alike.found, alike.notes⟩

/-- A step on the stream that yields one result on both streams. -/
theorem onStream_equally [OfIoError ε] {causes : IoError → Prop} {x y : StreamM α}
    (alike : Alike streams finds r r') (known : ∀ e, causes e → admitted (OfIoError.ofIo e))
    (run : InStep causes streams (Equally streams) (x r.stream) (y r'.stream)) :
    InStep admitted (Alike streams finds) (Equally (Alike streams finds))
      ((onStream x : ReadingM ε σ α) r) ((onStream y : ReadingM ε σ α) r') :=
  (onStream_inStep alike known run).mono (fun _ known => known) (fun _ _ together => together)
    fun _ _ _ _ ⟨⟨same, stream⟩, found, notes⟩ => ⟨same, stream, found, notes⟩

theorem soFar_inStep (alike : Alike streams finds r r') :
    InStep admitted (Alike streams finds)
      (fun c d s s' => c = s.found ∧ d = s'.found ∧ Alike streams finds s s')
      ((soFar : ReadingM ε σ σ) r) ((soFar : ReadingM ε σ σ) r') := .ok ⟨rfl, rfl, alike⟩

theorem get_inStep (alike : Alike streams finds r r') :
    InStep admitted (Alike streams finds)
      (fun s s' u u' => s = u ∧ s' = u' ∧ Alike streams finds u u')
      ((get : ReadingM ε σ (Reading σ)) r) ((get : ReadingM ε σ (Reading σ)) r') :=
  .ok ⟨rfl, rfl, alike⟩

theorem modifyFound_inStep {f g : σ → σ} (alike : Alike streams finds r r')
    (found : finds (f r.found) (g r'.found)) :
    InStep admitted (Alike streams finds) (Equally (Alike streams finds))
      ((modifyFound f : ReadingM ε σ Unit) r) ((modifyFound g : ReadingM ε σ Unit) r') :=
  .ok ⟨rfl, alike.stream, found, alike.notes⟩

theorem note_inStep (level : Level) (origin : Origin) (text : String)
    (alike : Alike streams finds r r') :
    InStep admitted (Alike streams finds) (Equally (Alike streams finds))
      ((note level origin text : ReadingM ε σ Unit) r)
      ((note level origin text : ReadingM ε σ Unit) r') :=
  .ok ⟨rfl, alike.stream, alike.found, congrArg (· ++ [⟨level, origin, text⟩]) alike.notes⟩

/-- Runs in step have one outcome and one list of notes. -/
theorem outcome_eq {x y : ReadingM ε σ α}
    (run : InStep admitted (Alike streams finds) (Equally (Alike streams finds)) (x r) (y r')) :
    outcome x r = outcome y r' := by
  unfold outcome
  generalize x r = left at run ⊢
  generalize y r' = right at run ⊢
  cases run with
  | ok together => exact Prod.ext (congrArg Except.ok together.1) together.2.notes
  | error _ together => exact Prod.ext rfl together.notes

/-- Requests that are each in step are answered alike, and only with admitted failures. -/
theorem askAll_inStep {ρ : Type} {ask : ρ → ReadingM ε σ α} {kept : Reading σ → Reading σ → Prop}
    (step : ∀ request r r', kept r r' →
      InStep admitted kept (Equally kept) (ask request r) (ask request r'))
    (requests : List ρ) (start : kept r r') :
    (askAll ask requests r).1 = (askAll ask requests r').1 ∧
      kept (askAll ask requests r).2 (askAll ask requests r').2 ∧
      ∀ e, .error e ∈ (askAll ask requests r).1 → admitted e := by
  induction requests generalizing r r' with
  | nil => exact ⟨rfl, start, fun _ member => absurd member List.not_mem_nil⟩
  | cons request rest ih =>
    have first := step request r r' start
    obtain ⟨answers, together, known⟩ := ih first.leftBy_kept
    refine ⟨?_, together, ?_⟩
    · exact (congrArg (· :: _) first.outcomeOf_eq).trans (congrArg (_ :: ·) answers)
    · intro e member
      rcases List.mem_cons.mp member with failed | member
      · exact first.admitted_of_outcome failed.symm
      · exact known e member

end Reading

end PackageAssets
