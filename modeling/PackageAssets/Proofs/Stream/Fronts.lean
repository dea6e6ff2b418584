import Mathlib.Data.List.Infix
import PackageAssets.Proofs.Stream.Twins

/-!
# Reading the front of the data

Data may be cut short. Until a reader meets the cut it reads what it would read
in the whole data, and where it meets it, it finds too few bytes: so a step
either yields the same on the front of the data, or fails for want of bytes.
Steps of which this is true make up sequences of which it is true. It is not
true of every step: text without a terminator ends where the data is cut.
-/
namespace PackageAssets

variable {ε σ α β : Type}

/-- The failure is want of bytes. -/
def Truncated (kind : ε → ErrorClass) (e : ε) : Prop := kind e = .truncated

/--
If the first run succeeds, so does the second, and `made` holds, or it fails as `short` says.
-/
def UpToCut (short : ε → Prop) (made : α → α → σ → σ → Prop) (x y : EStateM.Result ε σ α) : Prop :=
  ∀ a s, x = .ok a s → (∃ b t, y = .ok b t ∧ made a b s t) ∨ ∃ e t, y = .error e t ∧ short e

/-- From states that are kept together the step has one result, but for a shortage on the right. -/
def BearsCut (short : ε → Prop) (kept : σ → σ → Prop) (step : EStateM ε σ α) : Prop :=
  ∀ s t, kept s t → UpToCut short (Equally kept) (step s) (step t)

section Sequence

variable {short : ε → Prop} {kept : σ → σ → Prop} {made : α → α → σ → σ → Prop}
  {later : β → β → σ → σ → Prop} {s t : σ}

theorem upToCut_ok {a b : α} (together : made a b s t) :
    UpToCut short made (.ok a s) (.ok b t) := by
  rintro _ _ ⟨⟩
  exact .inl ⟨b, t, rfl, together⟩

theorem upToCut_error {e : ε} (x : EStateM.Result ε σ α) (known : short e) :
    UpToCut short made x (.error e t) := fun _ _ _ => .inr ⟨e, t, rfl, known⟩

theorem upToCut_of_error {e : ε} (y : EStateM.Result ε σ α) :
    UpToCut short made (.error e s) y := fun _ _ failed => nomatch failed

/-- What comes next is looked at only where the first step has succeeded. -/
theorem UpToCut.bind {x y : EStateM ε σ α} {f g : α → EStateM ε σ β}
    (first : UpToCut short made (x s) (y t))
    (next : ∀ a b s' t', x s = .ok a s' → made a b s' t' →
      UpToCut short later (f a s') (g b t')) :
    UpToCut short later ((x >>= f) s) ((y >>= g) t) := by
  intro c u done
  obtain ⟨a, s', ran, rest⟩ := bind_eq_ok_iff.mp done
  rcases first a s' ran with ⟨b, t', beside, together⟩ | ⟨e, t', failed, known⟩
  · rw [bind_of_ok beside]
    exact next a b s' t' ran together c u rest
  · rw [bind_of_error failed]
    exact .inr ⟨e, t', rfl, known⟩

theorem UpToCut.outcome {x y : EStateM.Result ε σ α} (run : UpToCut short made x y)
    (same : ∀ a b s t, made a b s t → a = b) {a : α} (succeeded : outcomeOf x = .ok a) :
    outcomeOf y = .ok a ∨ ∃ e, outcomeOf y = .error e ∧ short e := by
  cases x with
  | error e s => cases succeeded
  | ok b s =>
    cases succeeded
    rcases run a s rfl with ⟨b, t, rfl, together⟩ | ⟨e, t, rfl, known⟩
    · exact .inl (congrArg Except.ok (same _ _ _ _ together).symm)
    · exact .inr ⟨e, rfl, known⟩

theorem bearsCut_pure (a : α) : BearsCut short kept (pure a : EStateM ε σ α) :=
  fun _ _ together => upToCut_ok ⟨rfl, together⟩

theorem bearsCut_throw (e : ε) : BearsCut short kept (throw e : EStateM ε σ α) :=
  fun _ _ _ => upToCut_of_error _

theorem bearsCut_bind {step : EStateM ε σ α} {next : α → EStateM ε σ β}
    (first : BearsCut short kept step) (rest : ∀ a, BearsCut short kept (next a)) :
    BearsCut short kept (step >>= next) := by
  intro s t together
  refine (first s t together).bind ?_
  rintro a _ s' t' - ⟨rfl, together⟩
  exact rest a s' t' together

theorem bearsCut_ite {c : Prop} [Decidable c] {step other : EStateM ε σ α}
    (yes : BearsCut short kept step) (no : BearsCut short kept other) :
    BearsCut short kept (if c then step else other) := by
  split
  · exact yes
  · exact no

/-- A check that stops with a failure. The whole data has passed it, so it is of no concern. -/
theorem bearsCut_check {c : Prop} [Decidable c] {e : ε} {next : α → EStateM ε σ β}
    {other : EStateM ε σ β} (passed : BearsCut short kept other) :
    BearsCut short kept (if c then throw e >>= next else other) :=
  bearsCut_ite (fun _ _ _ => upToCut_of_error _) passed

/-- A step that is taken under a condition, and what comes next in either case. -/
theorem bearsCut_optional {c : Prop} [Decidable c] {step : EStateM ε σ Unit}
    {next : Unit → EStateM ε σ β} (first : BearsCut short kept step)
    (rest : BearsCut short kept (next ())) :
    BearsCut short kept (if c then step >>= next else next ()) :=
  bearsCut_ite (bearsCut_bind first fun _ => rest) rest

end Sequence

/-! ### Streams -/

namespace Stream

/-- The second stream shows the front of what the first one shows, and stands at the same place. -/
structure Front (s t : Stream) : Prop where
  whole : s.Sound
  part : t.Sound
  position : t.position = s.position
  visible : t.visible <+: s.visible

theorem front_ofBytes {whole part : List UInt8} (counted : whole.length < Count.bound)
    (cut : part <+: whole) : Front (ofBytes whole) (ofBytes part) where
  whole := sound_ofBytes counted
  part := sound_ofBytes (Nat.lt_of_le_of_lt cut.length_le counted)
  position := rfl
  visible := cut

namespace Front

variable {s t : Stream} (front : Front s t)

include front

theorem seek (position : Nat) : Front (s.seek position) (t.seek position) :=
  ⟨front.whole.seek position, front.part.seek position, rfl, front.visible⟩

theorem ahead : t.ahead <+: s.ahead := by
  rw [Stream.ahead, Stream.ahead, front.position]
  exact front.visible.drop s.position

theorem take_ahead {count : Nat} (enough : count ≤ t.ahead.length) :
    t.ahead.take count = s.ahead.take count := by
  rw [List.prefix_iff_eq_take.mp front.ahead, List.take_take, Nat.min_eq_left enough]

theorem length_le : t.length ≤ s.length := by
  have shorter := front.visible.length_le
  rwa [length_visible front.part, length_visible front.whole] at shorter

end Front

theorem Takes.bearsCut {step : StreamM α} {width : Nat} {made : List UInt8 → α}
    (takes : Takes step width made) : BearsCut Short Front step := by
  intro s t front
  by_cases enough : width ≤ t.ahead.length
  · have more := Nat.le_trans enough front.ahead.length_le
    rw [takes.enough front.whole more, takes.enough front.part enough, front.take_ahead enough,
      front.position]
    exact upToCut_ok ⟨rfl, front.seek _⟩
  · obtain ⟨expected, found, moved, fails⟩ := takes.short (Nat.lt_of_not_le enough)
    rw [fails front.part rfl]
    exact upToCut_error _ ⟨expected, found, rfl⟩

theorem setPosition_bearsCut (position : Nat) : BearsCut Short Front (setPosition position) :=
  fun _ _ front => upToCut_ok ⟨rfl, front.seek position⟩

theorem skip_bearsCut (count : Nat) : BearsCut Short Front (skip count) := by
  intro s t front
  rw [skip, skip, front.position]
  exact upToCut_ok ⟨rfl, front.seek _⟩

/-- Views of the next bytes show the same bytes. -/
theorem readStream_upToCut {s t : Stream} (front : Front s t) {count : Nat} (some : 0 < count) :
    UpToCut Short (fun v w s t => (v.Sound ∧ w.Sound ∧ w.ahead = v.ahead ∧
      v.ahead.length = count) ∧ Front s t) (readStream count s) (readStream count t) := by
  by_cases enough : count ≤ t.remaining
  · have shorter := front.length_le
    have place := front.position
    have inside : t.position + count ≤ t.length := by
      unfold remaining at enough
      omega
    have room : s.position + count ≤ s.length := by omega
    have ordered (p : Nat) : p ≤ p + count := Nat.le_add_right p count
    rw [readStream_eq front.whole room, readStream_eq front.part inside, place]
    rw [place] at inside
    have whole := sound_part front.whole (ordered _) room
    have part := sound_part front.part (ordered _) inside
    have size := length_part s s.position (s.position + count)
    rw [Nat.add_sub_cancel_left] at size
    refine upToCut_ok ⟨⟨whole, part, ?_, (length_ahead whole).trans size⟩, front.seek _⟩
    rw [ahead_part _ inside, ahead_part _ room, Nat.add_sub_cancel_left]
    have there : count ≤ (t.seek s.position).ahead.length := by
      rwa [length_ahead (front.part.seek _), ← place, seek_self]
    exact (front.seek s.position).take_ahead there
  · rw [readStream_short (Nat.lt_of_not_le enough)]
    exact upToCut_error _ ⟨count, t.remaining, rfl⟩

end Stream

/-! ### Readers -/

namespace Reading

/-- Readers with the same finds, of which the second reads the front of what the first reads. -/
structure Fronted (r t : Reading σ) : Prop where
  stream : Stream.Front r.stream t.stream
  found : t.found = r.found

theorem fronted_start {s t : Stream} (front : Stream.Front s t) (found : σ) :
    Fronted (start s found) (start t found) := ⟨front, rfl⟩

variable {short : ε → Prop}

theorem soFar_bearsCut : BearsCut short Fronted (soFar : ReadingM ε σ σ) :=
  fun _ _ fronted => upToCut_ok ⟨fronted.found.symm, fronted⟩

theorem modifyFound_bearsCut (f : σ → σ) :
    BearsCut short Fronted (modifyFound f : ReadingM ε σ Unit) :=
  fun _ _ fronted => upToCut_ok ⟨rfl, fronted.stream, congrArg f fronted.found⟩

theorem note_bearsCut (level : Level) (origin : Origin) (text : String) :
    BearsCut short Fronted (note level origin text : ReadingM ε σ Unit) :=
  fun _ _ fronted => upToCut_ok ⟨rfl, fronted.stream, fronted.found⟩

/-- What comes next looks only at what both readers have in common. -/
theorem get_bearsCut {next : Reading σ → ReadingM ε σ β}
    (same : ∀ r t, Fronted r t → next t = next r) (rest : ∀ r, BearsCut short Fronted (next r)) :
    BearsCut short Fronted (get >>= next) := by
  intro r t fronted
  rw [bind_of_ok (get_eq_ok r), bind_of_ok (get_eq_ok t), same r t fronted]
  exact rest r r t fronted

/-- A check that enough bytes remain, before a step that does not ask how many. -/
theorem remaining_bearsCut {needed : Nat} (refuse : Nat → ε) (known : ∀ left, short (refuse left))
    {next : ReadingM ε σ β} (rest : BearsCut short Fronted next) :
    BearsCut short Fronted (do
      let remaining := (← get).stream.remaining
      if remaining < needed then throw (refuse remaining)
      next) := by
  intro r t fronted
  have left : t.stream.remaining ≤ r.stream.remaining := by
    have shorter := fronted.stream.length_le
    have place := fronted.stream.position
    simp only [Stream.remaining]
    omega
  simp only [bind_of_ok (get_eq_ok r), bind_of_ok (get_eq_ok t)]
  by_cases few : t.stream.remaining < needed
  · rw [if_pos few]
    exact upToCut_error _ (known _)
  · rw [if_neg few, if_neg (by omega)]
    exact rest r t fronted

section OnStream

variable [OfIoError ε] {kind : ε → ErrorClass}
  (faithful : ∀ e : IoError, kind (OfIoError.ofIo e) = e.kind)

include faithful

theorem onStream_upToCut {made : α → α → Stream → Stream → Prop} {x y : StreamM α}
    {r t : Reading σ} (same : t.found = r.found)
    (run : UpToCut Stream.Short made (x r.stream) (y t.stream)) :
    UpToCut (Truncated kind)
      (fun a b r t => made a b r.stream t.stream ∧ t.found = r.found)
      ((onStream x : ReadingM ε σ α) r) ((onStream y : ReadingM ε σ α) t) := by
  intro a u done
  cases ran : x r.stream with
  | error e s =>
    rw [onStream_of_error ran] at done
    cases done
  | ok b s =>
    rw [onStream_of_ok ran] at done
    cases done
    rcases run a s ran with ⟨b, t', beside, together⟩ | ⟨e, t', failed, known⟩
    · exact .inl ⟨b, _, onStream_of_ok beside, together, same⟩
    · exact .inr ⟨_, _, onStream_of_error failed, (faithful e).trans known.kind_eq⟩

theorem onStream_bearsCut {step : StreamM α} (bears : BearsCut Stream.Short Stream.Front step) :
    BearsCut (Truncated kind) Fronted (onStream step : ReadingM ε σ α) := by
  intro r t fronted a u done
  rcases onStream_upToCut faithful fronted.found (bears _ _ fronted.stream) a u done with
    ⟨b, t', beside, ⟨same, front⟩, found⟩ | failed
  · exact .inl ⟨b, t', beside, same, front, found⟩
  · exact .inr failed

end OnStream

end Reading

end PackageAssets
