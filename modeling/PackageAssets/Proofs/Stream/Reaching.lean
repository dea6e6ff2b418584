import PackageAssets.Proofs.Stream.Takes

/-!
# Where a reader gets to

A reader that reads fields and checks them gets to its end exactly when the
bytes are there and every check lets them through. The equivalences below take
such a reader apart from the front: each field is then a number at an offset in
the bytes that were ahead at the start.
-/
namespace PackageAssets

/-- The number in `width` bytes at an offset. -/
def ByteOrder.readAt (order : ByteOrder) (bytes : List UInt8) (offset width : Nat) : Nat :=
  order.read ((bytes.drop offset).take width)

theorem ByteOrder.readAt_lt (order : ByteOrder) (bytes : List UInt8) (offset width : Nat) :
    order.readAt bytes offset width < 256 ^ width := by
  have small := order.read_lt ((bytes.drop offset).take width)
  refine Nat.lt_of_lt_of_le small (Nat.pow_le_pow_right (by decide) ?_)
  exact List.length_take_le ..

/-- Also where a skip stops at the largest position: nothing is ahead of it. -/
theorem Stream.ahead_skip {s : Stream} (sound : s.Sound) (count : Nat) :
    (s.seek (Count.clamp (s.position + count))).ahead = s.ahead.drop count := by
  have counted := length_lt_bound sound
  rw [ahead_seek, ahead, List.drop_drop]
  by_cases near : s.position + count ≤ Count.top
  · rw [Count.clamp_of_le near]
  · unfold Count.clamp Count.top
    unfold Count.top at near
    unfold Count.bound at counted
    rw [List.drop_eq_nil_of_le, List.drop_eq_nil_of_le]
    · rw [length_visible sound]
      omega
    · rw [length_visible sound]
      omega

namespace Reading

variable {ε σ α β : Type}

/-- The step succeeds here, and `reached` holds of what it yields and leaves. -/
def Reaches (reached : α → Reading σ → Prop) (step : ReadingM ε σ α) (r : Reading σ) : Prop :=
  ∃ a t, step r = .ok a t ∧ reached a t

theorem outcome_isOk_iff (step : ReadingM ε σ α) (r : Reading σ) :
    (outcome step r).1.isOk = true ↔ Reaches (fun _ _ => True) step r := by
  rw [outcome, Reaches]
  cases step r with
  | ok a t => exact ⟨fun _ => ⟨a, t, rfl, trivial⟩, fun _ => rfl⟩
  | error e t =>
    constructor
    · rintro ⟨⟩
    · rintro ⟨_, _, ⟨⟩, -⟩

/-- The reader `count` bytes further on. -/
def past (r : Reading σ) (count : Nat) : Reading σ :=
  { r with stream := r.stream.seek (r.stream.position + count) }

@[simp] theorem found_past (r : Reading σ) (count : Nat) : (r.past count).found = r.found := rfl

@[simp] theorem position_past (r : Reading σ) (count : Nat) :
    (r.past count).stream.position = r.stream.position + count := rfl

@[simp] theorem past_past (r : Reading σ) (m n : Nat) : (r.past m).past n = r.past (m + n) := by
  simp [past, Nat.add_assoc]

@[simp] theorem ahead_past (r : Reading σ) (count : Nat) :
    (r.past count).stream.ahead = r.stream.ahead.drop count := Stream.ahead_seek_add ..

theorem sound_past {r : Reading σ} (sound : r.stream.Sound) (count : Nat) :
    (r.past count).stream.Sound := sound.seek _

/-- Whatever the step yields, from any reader. -/
def Yields (made : α → Prop) (step : ReadingM ε σ α) : Prop :=
  ∀ r a t, step r = .ok a t → made a

section Yields

variable {made : β → Prop}

theorem yields_pure {b : β} (h : made b) : Yields made (pure b : ReadingM ε σ β) := by
  rintro r _ _ ⟨⟩
  exact h

theorem yields_throw (e : ε) : Yields made (throw e : ReadingM ε σ β) := by
  rintro r _ _ ⟨⟩

theorem yields_bind {step : ReadingM ε σ α} {next : α → ReadingM ε σ β}
    (later : ∀ a, Yields made (next a)) : Yields made (step >>= next) := by
  intro r b u done
  obtain ⟨a, t, -, rest⟩ := bind_eq_ok_iff.mp done
  exact later a t b u rest

theorem yields_check {c : Prop} [Decidable c] {e : ε} {next : Unit → ReadingM ε σ β}
    (passed : Yields made (next ())) : Yields made (if c then throw e >>= next else next ()) := by
  split
  · rintro r _ _ ⟨⟩
  · exact passed

end Yields

variable {reached : β → Reading σ → Prop} {r : Reading σ}

theorem reaches_bind {step : ReadingM ε σ α} {next : α → ReadingM ε σ β} :
    Reaches reached (step >>= next) r ↔ Reaches (fun a t => Reaches reached (next a) t) step r := by
  constructor
  · rintro ⟨b, u, done, held⟩
    obtain ⟨a, t, first, rest⟩ := bind_eq_ok_iff.mp done
    exact ⟨a, t, first, b, u, rest, held⟩
  · rintro ⟨a, t, first, b, u, rest, held⟩
    exact ⟨b, u, bind_eq_ok_iff.mpr ⟨a, t, first, rest⟩, held⟩

theorem reaches_soFar {next : σ → ReadingM ε σ β} :
    Reaches reached (soFar >>= next) r ↔ Reaches reached (next r.found) r := Iff.rfl

theorem reaches_get {next : Reading σ → ReadingM ε σ β} :
    Reaches reached (get >>= next) r ↔ Reaches reached (next r) r := Iff.rfl

theorem reaches_note {level : Level} {origin : Origin} {text : String}
    {next : Unit → ReadingM ε σ β} :
    Reaches reached (note level origin text >>= next) r ↔
      Reaches reached (next ()) { r with notes := r.notes ++ [⟨level, origin, text⟩] } := Iff.rfl

theorem reaches_modifyFound {reached : Unit → Reading σ → Prop} {f : σ → σ} :
    Reaches reached (modifyFound f : ReadingM ε σ Unit) r ↔
      reached () { r with found := f r.found } := by
  constructor
  · rintro ⟨_, _, ⟨⟩, done⟩
    exact done
  · intro done
    exact ⟨(), _, rfl, done⟩

/-- A check lets only through what it does not refuse. -/
theorem reaches_check {c : Prop} [Decidable c] {e : ε} {next : Unit → ReadingM ε σ β} :
    Reaches reached (if c then throw e >>= next else next ()) r ↔
      ¬c ∧ Reaches reached (next ()) r := by
  by_cases h : c
  · simp only [h, if_true, not_true, false_and, iff_false]
    rintro ⟨_, _, failed, -⟩
    cases failed
  · simp [h]

theorem reaches_ite {c : Prop} [Decidable c] {x y : ReadingM ε σ β} :
    Reaches reached (if c then x else y) r ↔
      if c then Reaches reached x r else Reaches reached y r := by
  split <;> rfl

/-- A step on the stream that is behind the reader succeeded. -/
theorem Reaches.of_onStream [OfIoError ε] {step : StreamM α} {next : α → ReadingM ε σ β}
    (done : Reaches reached (onStream step >>= next) r) :
    ∃ a t, step r.stream = .ok a t ∧ Reaches reached (next a) { r with stream := t } := by
  obtain ⟨a, u, ran, rest⟩ := reaches_bind.mp done
  unfold onStream at ran
  cases known : step r.stream with
  | ok b t =>
    rw [known] at ran
    cases ran
    exact ⟨_, _, rfl, rest⟩
  | error e t =>
    rw [known] at ran
    cases ran

theorem reaches_take [OfIoError ε] {step : StreamM α} {width : Nat} {made : List UInt8 → α}
    (takes : Stream.Takes step width made) {next : α → ReadingM ε σ β} (sound : r.stream.Sound) :
    Reaches reached (onStream step >>= next) r ↔
      width ≤ r.stream.ahead.length ∧
        Reaches reached (next (made (r.stream.ahead.take width))) (r.past width) := by
  by_cases enough : width ≤ r.stream.ahead.length
  · have read := onStream_of_ok (ε := ε) (takes.enough sound enough)
    simp only [Reaches, bind_of_ok read, enough, true_and]
    rfl
  · obtain ⟨expected, found, moved, fails⟩ := takes.short (Nat.lt_of_not_le enough)
    have failed := onStream_of_error (ε := ε) (fails sound rfl)
    simp [Reaches, bind_of_error failed, enough]

/-- Something is made of bytes where the reader stands after `offset` bytes. -/
theorem reaches_takeAt [OfIoError ε] {step : StreamM α} {width : Nat} {made : List UInt8 → α}
    (takes : Stream.Takes step width made) (positive : 0 < width) {next : α → ReadingM ε σ β}
    (sound : r.stream.Sound) (offset : Nat) :
    Reaches reached (onStream step >>= next) (r.past offset) ↔
      offset + width ≤ r.stream.ahead.length ∧
        Reaches reached (next (made ((r.stream.ahead.drop offset).take width)))
          (r.past (offset + width)) := by
  have room : width ≤ r.stream.ahead.length - offset ↔ offset + width ≤ r.stream.ahead.length := by
    omega
  rw [reaches_take takes (sound_past sound offset), past_past, ahead_past, List.length_drop, room]

theorem reaches_readNat [OfIoError ε] {order : ByteOrder} {width : Nat} (positive : 0 < width)
    {next : Nat → ReadingM ε σ β} (sound : r.stream.Sound) (offset : Nat) :
    Reaches reached (onStream (Stream.readNat order width) >>= next) (r.past offset) ↔
      offset + width ≤ r.stream.ahead.length ∧
        Reaches reached (next (order.readAt r.stream.ahead offset width))
          (r.past (offset + width)) :=
  reaches_takeAt (Stream.takes_readNat order width) positive sound offset

theorem setPosition_eq_ok [OfIoError ε] (position : Nat) (r : Reading σ) :
    (onStream (Stream.setPosition position) : ReadingM ε σ Unit) r =
      .ok () { r with stream := r.stream.seek position } := rfl

theorem reaches_setPosition [OfIoError ε] {position : Nat} {next : Unit → ReadingM ε σ β} :
    Reaches reached (onStream (Stream.setPosition position) >>= next) r ↔
      Reaches reached (next ()) { r with stream := r.stream.seek position } := Iff.rfl

theorem reaches_skip [OfIoError ε] {count : Nat} {next : Unit → ReadingM ε σ β}
    (near : r.stream.position + count ≤ Count.top) :
    Reaches reached (onStream (Stream.skip count) >>= next) r ↔
      Reaches reached (next ()) (r.past count) := by
  have skipped : Stream.skip count r.stream =
      .ok () (r.stream.seek (r.stream.position + count)) := by
    rw [Stream.skip, Count.clamp_of_le near]
  simp only [Reaches, bind_of_ok (onStream_of_ok (ε := ε) skipped)]
  rfl

/-- Skipped bytes must be there too, if something is made of the bytes behind them. -/
theorem reaches_skip_take [OfIoError ε] {step : StreamM α} {width : Nat} {made : List UInt8 → α}
    (takes : Stream.Takes step width made) (positive : 0 < width) {next : α → ReadingM ε σ β}
    (sound : r.stream.Sound) (offset count : Nat) :
    Reaches reached (onStream (Stream.skip count) >>= fun _ => onStream step >>= next)
        (r.past offset) ↔
      offset + count + width ≤ r.stream.ahead.length ∧
        Reaches reached (next (made ((r.stream.ahead.drop (offset + count)).take width)))
          (r.past (offset + count + width)) := by
  by_cases near : (r.past offset).stream.position + count ≤ Count.top
  · rw [reaches_skip near, past_past]
    exact reaches_takeAt takes positive sound (offset + count)
  · have room := Stream.length_ahead sound
    have counted := Stream.length_lt_bound sound
    have left := congrArg List.length (Stream.ahead_skip (sound_past sound offset) count)
    rw [position_past] at near
    rw [ahead_past, List.length_drop, List.length_drop] at left
    unfold Stream.remaining at room
    unfold Count.bound at counted
    unfold Count.top at near
    constructor
    · intro done
      have enough := ((reaches_take (r := { r.past offset with
        stream := (r.past offset).stream.seek
          (Count.clamp ((r.past offset).stream.position + count)) }) takes
        ((sound_past sound offset).seek _)).mp done).1
      rw [left] at enough
      omega
    · rintro ⟨enough, -⟩
      omega

/-- A view of the next bytes is there just if they are. -/
theorem reaches_readStream [OfIoError ε] {count : Nat} (positive : 0 < count)
    {next : Stream → ReadingM ε σ β} (sound : r.stream.Sound) :
    Reaches reached (onStream (Stream.readStream count) >>= next) r ↔
      count ≤ r.stream.ahead.length ∧ Reaches reached
        (next (r.stream.part r.stream.position (r.stream.position + count))) (r.past count) := by
  by_cases enough : count ≤ r.stream.ahead.length
  · have inside := Stream.position_add_le_length sound positive enough
    have read := onStream_of_ok (ε := ε) (Stream.readStream_eq sound inside)
    simp only [Reaches, bind_of_ok read, enough, true_and]
    rfl
  · have short := Stream.length_ahead sound ▸ Nat.lt_of_not_le enough
    have failed := onStream_of_error (ε := ε) (Stream.readStream_short short)
    simp [Reaches, bind_of_error failed, enough]

end Reading

end PackageAssets
