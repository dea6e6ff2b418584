import PackageAssets.Stream.Reading

/-!
# Steps in sequence

A sequence of steps succeeds exactly when its parts do, one after the other.
The steps of a reader that only look at what was found or write a note succeed
always and leave the stream alone.
-/
namespace PackageAssets

variable {ε σ α β : Type}

theorem bind_of_ok {step : EStateM ε σ α} {next : α → EStateM ε σ β} {s t : σ} {a : α}
    (h : step s = .ok a t) : (step >>= next) s = next a t := by
  change (match step s with
    | .ok a t => next a t
    | .error e t => .error e t) = next a t
  rw [h]

theorem bind_of_error {step : EStateM ε σ α} {next : α → EStateM ε σ β} {s t : σ} {e : ε}
    (h : step s = .error e t) : (step >>= next) s = .error e t := by
  change (match step s with
    | .ok a t => next a t
    | .error e t => .error e t) = .error e t
  rw [h]

theorem bind_eq_ok_iff {step : EStateM ε σ α} {next : α → EStateM ε σ β} {s u : σ} {b : β} :
    (step >>= next) s = .ok b u ↔ ∃ a t, step s = .ok a t ∧ next a t = .ok b u := by
  constructor
  · intro h
    cases hs : step s with
    | ok a t => exact ⟨a, t, rfl, (bind_of_ok hs).symm.trans h⟩
    | error e t =>
      rw [bind_of_error hs] at h
      cases h
  · rintro ⟨a, t, hs, hn⟩
    exact (bind_of_ok hs).trans hn

theorem discard_of_ok {step : EStateM ε σ α} {s t : σ} {a : α} (h : step s = .ok a t) :
    discard step s = .ok () t := by
  change (match step s with
    | .ok _ t => EStateM.Result.ok () t
    | .error e t => .error e t) = .ok () t
  rw [h]

theorem discard_of_error {step : EStateM ε σ α} {s t : σ} {e : ε} (h : step s = .error e t) :
    discard step s = .error e t := by
  change (match step s with
    | .ok _ t => EStateM.Result.ok () t
    | .error e t => .error e t) = .error e t
  rw [h]

@[simp] theorem pure_eq_ok (a : α) (s : σ) : (pure a : EStateM ε σ α) s = .ok a s := rfl

@[simp] theorem get_eq_ok (s : σ) : (get : EStateM ε σ σ) s = .ok s s := rfl

namespace Reading

@[simp] theorem soFar_eq_ok (r : Reading σ) : (soFar : ReadingM ε σ σ) r = .ok r.found r := rfl

@[simp] theorem note_eq_ok (level : Level) (origin : Origin) (text : String) (r : Reading σ) :
    (note level origin text : ReadingM ε σ Unit) r =
      .ok () { r with notes := r.notes ++ [⟨level, origin, text⟩] } := rfl

theorem onStream_of_ok [OfIoError ε] {step : StreamM α} {r : Reading σ} {a : α} {t : Stream}
    (h : step r.stream = .ok a t) :
    (onStream step : ReadingM ε σ α) r = .ok a { r with stream := t } := by
  rw [onStream, h]

theorem onStream_of_error [OfIoError ε] {step : StreamM α} {r : Reading σ} {e : IoError}
    {t : Stream} (h : step r.stream = .error e t) :
    (onStream step : ReadingM ε σ α) r = .error (OfIoError.ofIo e) { r with stream := t } := by
  rw [onStream, h]

end Reading

end PackageAssets
