import PackageAssets.Proofs.Stream.InStep
import PackageAssets.Proofs.Stream.Takes
import PackageAssets.Proofs.Stream.Terminated
import PackageAssets.Stream.Bits

/-!
# Windows on the same bytes

Two windows can show the same bytes, in different sources and at different
places, or one of them the end of what the other shows. Streams over them that
stand at the same byte yield the same and stay beside each other: a step moves
a position or takes pending bits, and what it yields is read off the bytes
ahead. Steps that go to fixed positions, or back, ask for the whole window on
both sides.
-/
namespace PackageAssets

/-- Failures that are the data's own: it is of another format, or cut short. -/
def ErrorClass.OfData (kind : ErrorClass) : Prop := kind = .format ∨ kind = .truncated

/-- The kind of a failure is one of the data's own. -/
def OfData {ε : Type} (kind : ε → ErrorClass) (e : ε) : Prop := (kind e).OfData

theorem ofData {ε : Type} {kind : ε → ErrorClass} {e : ε} (format : kind e = .format) :
    OfData kind e := Or.inl format

theorem ofData_truncated {ε : Type} {kind : ε → ErrorClass} {e : ε}
    (truncated : kind e = .truncated) : OfData kind e := Or.inr truncated

namespace Stream

/-- What the second window shows is what the first shows from `p` on. -/
structure Twins (p : Nat) (s t : Stream) : Prop where
  left : s.Sound
  right : t.Sound
  inside : p ≤ s.length
  visible : s.visible.drop p = t.visible

/-- The stream at another position and with other pending bits. -/
def moved (s : Stream) (position : Nat) (pending : PendingBits) : Stream :=
  ⟨s.source, ⟨s.window, position, pending⟩⟩

/-- Two streams moved to the same byte. -/
inductive Beside (p : Nat) (s₀ t₀ : Stream) : Stream → Stream → Prop where
  | intro (position : Nat) (pending : PendingBits) :
      Beside p s₀ t₀ (s₀.moved (p + position) pending) (t₀.moved position pending)

/-- Views of the same bytes that stand at the same byte. -/
structure SameView (v w : Stream) : Prop where
  twins : Twins 0 v w
  beside : Beside 0 v w v w

/-- There were too few bytes. -/
def Short (e : IoError) : Prop := ∃ expected found, e = .notEnough expected found

theorem Short.kind_eq {e : IoError} (short : Short e) : e.kind = .truncated := by
  obtain ⟨expected, found, rfl⟩ := short
  rfl

/-- Want of bytes is a failure of the data, in the kinds of any format. -/
theorem ofData_of_short {ε : Type} [OfIoError ε] {kind : ε → ErrorClass}
    (faithful : ∀ e : IoError, kind (OfIoError.ofIo e) = e.kind) (e : IoError) (short : Short e) :
    OfData kind (OfIoError.ofIo e) := Or.inr ((faithful e).trans short.kind_eq)

theorem Sound.moved {s : Stream} (h : s.Sound) (position : Nat) (pending : PendingBits) :
    (s.moved position pending).Sound := ⟨h.inMemory, h.counted, h.within⟩

theorem Sound.twins {s : Stream} (h : s.Sound) : Twins 0 s s :=
  ⟨h, h, Nat.zero_le _, List.drop_zero⟩

theorem beside_self (s : Stream) : Beside 0 s s s s := by
  have here : Beside 0 s s (s.moved (0 + s.position) s.cursor.pending)
      (s.moved s.position s.cursor.pending) := .intro s.position s.cursor.pending
  rw [Nat.zero_add] at here
  exact here

theorem Sound.sameView {s : Stream} (h : s.Sound) : SameView s s := ⟨h.twins, beside_self s⟩

namespace Beside

variable {p : Nat} {s₀ t₀ s t : Stream}

theorem position_eq (beside : Beside p s₀ t₀ s t) : s.position = p + t.position := by
  cases beside
  rfl

theorem pending_eq (beside : Beside p s₀ t₀ s t) : s.cursor.pending = t.cursor.pending := by
  cases beside
  rfl

theorem seek (beside : Beside p s₀ t₀ s t) (position : Nat) :
    Beside p s₀ t₀ (s.seek (p + position)) (t.seek position) := by
  cases beside with
  | intro _ pending => exact .intro position pending

theorem advance (beside : Beside p s₀ t₀ s t) (count : Nat) :
    Beside p s₀ t₀ (s.seek (s.position + count)) (t.seek (t.position + count)) := by
  have along := beside.seek (t.position + count)
  rw [← Nat.add_assoc, ← beside.position_eq] at along
  exact along

theorem withPending (beside : Beside p s₀ t₀ s t) (pending : PendingBits) :
    Beside p s₀ t₀ (s.withPending pending) (t.withPending pending) := by
  cases beside with
  | intro position _ => exact .intro position pending

/-! Streams on windows that start at the same byte stand at the same position. -/

theorem position_same (beside : Beside 0 s₀ t₀ s t) : s.position = t.position :=
  beside.position_eq.trans (Nat.zero_add _)

theorem goTo (beside : Beside 0 s₀ t₀ s t) (position : Nat) :
    Beside 0 s₀ t₀ (s.seek position) (t.seek position) := by
  have along := beside.seek position
  rw [Nat.zero_add] at along
  exact along

variable (twins : Twins p s₀ t₀) (beside : Beside p s₀ t₀ s t)

include twins beside

theorem sound_left : s.Sound := by
  cases beside
  exact twins.left.moved _ _

theorem sound_right : t.Sound := by
  cases beside
  exact twins.right.moved _ _

theorem twins_here : Twins p s t := by
  cases beside
  exact ⟨twins.left.moved _ _, twins.right.moved _ _, twins.inside, twins.visible⟩

theorem length_eq : s.length = p + t.length := by
  have here := twins_here twins beside
  have size := congrArg List.length here.visible
  have inside := here.inside
  rw [List.length_drop, length_visible here.left, length_visible here.right] at size
  omega

theorem remaining_eq : s.remaining = t.remaining := by
  have length := length_eq twins beside
  have position := beside.position_eq
  rw [remaining, remaining, length, position]
  omega

theorem ahead_eq : s.ahead = t.ahead := by
  have here := twins_here twins beside
  rw [ahead, ahead, beside.position_eq, ← List.drop_drop, here.visible]

end Beside

/-! ### Reading on -/

/-- What two streams yield and leave when both take `width` bytes. -/
structure Taken {α : Type} (p : Nat) (s₀ t₀ : Stream) (width : Nat) (made : List UInt8 → α)
    (a b : α) (s t : Stream) : Prop where
  bytes : ∃ bytes, bytes.length = width ∧ a = made bytes
  inside : 0 < width → t.position ≤ t.length
  same : a = b
  beside : Beside p s₀ t₀ s t

section Read

variable {p : Nat} {s₀ t₀ s t : Stream} {admitted : IoError → Prop}
  (twins : Twins p s₀ t₀) (beside : Beside p s₀ t₀ s t)

include twins beside

theorem readBytes_inStep (count : Nat) :
    InStep admitted (Beside p s₀ t₀) (Equally (Beside p s₀ t₀)) (readBytes count s)
      (readBytes count t) := by
  have same := beside.ahead_eq twins
  rw [readBytes_eq (beside.sound_left twins), readBytes_eq (beside.sound_right twins), same]
  exact .ok ⟨rfl, beside.advance _⟩

theorem readRemaining_inStep :
    InStep admitted (Beside p s₀ t₀) (Equally (Beside p s₀ t₀)) (readRemaining s)
      (readRemaining t) := by
  rw [readRemaining, readRemaining, beside.remaining_eq twins]
  exact readBytes_inStep twins beside t.remaining

theorem readText_inStep :
    InStep admitted (Beside p s₀ t₀) (Equally (Beside p s₀ t₀)) (readText s) (readText t) := by
  have same := beside.ahead_eq twins
  rw [readText_eq (beside.sound_left twins), readText_eq (beside.sound_right twins), same]
  exact .ok ⟨rfl, beside.advance _⟩

/-- Whatever is made of a number of bytes is made of the same bytes. -/
theorem Takes.inStep_taken {α : Type} {step : StreamM α} {width : Nat} {made : List UInt8 → α}
    (takes : Takes step width made) :
    InStep Short (Beside p s₀ t₀) (Taken p s₀ t₀ width made) (step s) (step t) := by
  have same := beside.ahead_eq twins
  by_cases enough : width ≤ t.ahead.length
  · rw [takes.enough (beside.sound_left twins) (same ▸ enough),
      takes.enough (beside.sound_right twins) enough, same]
    refine .ok ⟨⟨_, List.length_take_of_le enough, rfl⟩, ?_, rfl, beside.advance _⟩
    exact fun positive => position_add_le_length (beside.sound_right twins) positive enough
  · obtain ⟨expected, found, moved, fails⟩ := takes.short (Nat.lt_of_not_le enough)
    rw [fails (beside.sound_left twins) same, fails (beside.sound_right twins) rfl]
    exact .error ⟨expected, found, rfl⟩ (beside.advance _)

theorem Takes.inStep {α : Type} {step : StreamM α} {width : Nat} {made : List UInt8 → α}
    (takes : Takes step width made) :
    InStep Short (Beside p s₀ t₀) (Equally (Beside p s₀ t₀)) (step s) (step t) :=
  (takes.inStep_taken twins beside).mono (fun _ known => known) (fun _ _ together => together)
    fun _ _ _ _ taken => ⟨taken.same, taken.beside⟩

end Read

/-! ### Views -/

theorem visible_part {s : Stream} (start : Nat) {stop : Nat} (inside : stop ≤ s.length) :
    (s.part start stop).visible = (s.visible.drop start).take (stop - start) :=
  ahead_part start inside

/-- The view from a place to the end of the window. -/
theorem visible_rest {s : Stream} (sound : s.Sound) (start : Nat) :
    (s.part start s.length).visible = s.visible.drop start := by
  rw [visible_part start (Nat.le_refl _), ← length_visible sound, ← List.length_drop,
    List.take_length]

theorem length_part (s : Stream) (start stop : Nat) : (s.part start stop).length = stop - start :=
  Nat.add_sub_add_left ..

section Views

variable {p : Nat} {s₀ t₀ s t : Stream} (twins : Twins p s₀ t₀) (beside : Beside p s₀ t₀ s t)

include twins beside

theorem sameView_part {start stop : Nat} (ordered : start ≤ stop) (inside : stop ≤ t.length) :
    SameView (s.part (p + start) (p + stop)) (t.part start stop) := by
  have here := beside.twins_here twins
  have length := beside.length_eq twins
  have room : p + stop ≤ s.length := by omega
  have left := sound_part here.left (Nat.add_le_add_left ordered p) room
  have right := sound_part here.right ordered inside
  refine ⟨⟨left, right, Nat.zero_le _, ?_⟩, .intro 0 .none⟩
  rw [List.drop_zero, visible_part _ room, visible_part _ inside, Nat.add_sub_add_left,
    ← List.drop_drop, here.visible]

/-- Views of the next bytes. A view of nothing is refused behind the end, so this is left out. -/
theorem readStream_inStep {count : Nat} (ready : 0 < count ∨ t.position ≤ t.length) :
    InStep Short (Beside p s₀ t₀)
      (fun v w s t => (SameView v w ∧ v.ahead.length = count) ∧ Beside p s₀ t₀ s t)
      (readStream count s) (readStream count t) := by
  have remains := beside.remaining_eq twins
  have length := beside.length_eq twins
  have position := beside.position_eq
  by_cases enough : count ≤ t.remaining
  · have inside : t.position + count ≤ t.length := by
      unfold remaining at enough
      omega
    have room : s.position + count ≤ s.length := by omega
    have view := sameView_part twins beside (Nat.le_add_right t.position count) inside
    rw [← Nat.add_assoc, ← position] at view
    rw [readStream_eq (beside.sound_left twins) room,
      readStream_eq (beside.sound_right twins) inside]
    refine .ok ⟨⟨view, ?_⟩, beside.advance count⟩
    have size := length_part s s.position (s.position + count)
    rw [Nat.add_sub_cancel_left] at size
    exact (length_ahead view.twins.left).trans size
  · rw [readStream_short (by omega), readStream_short (by omega), remains]
    exact .error ⟨count, t.remaining, rfl⟩ beside

end Views

theorem wholeSlice_eq (s : Stream) : s.wholeSlice = .ok (s.part 0 s.length) := by
  rw [wholeSlice, slice_eq]
  apply if_neg
  change ¬(s.length < 0 ∨ s.length < s.length)
  omega

theorem SameView.length_eq {v w : Stream} (view : SameView v w) : v.length = w.length :=
  (view.beside.length_eq view.twins).trans (Nat.zero_add _)

/-- The same move on both sides. -/
theorem SameView.moved {v w : Stream} (view : SameView v w) (position : Nat)
    (pending : PendingBits) : SameView (v.moved position pending) (w.moved position pending) := by
  have along : Beside 0 v w (v.moved (0 + position) pending) (w.moved position pending) :=
    .intro position pending
  have here : Beside 0 (v.moved position pending) (w.moved position pending)
      (v.moved (0 + position) pending) (w.moved position pending) := .intro position pending
  rw [Nat.zero_add] at along here
  exact ⟨along.twins_here view.twins, here⟩

theorem SameView.visible_eq {v w : Stream} (view : SameView v w) : v.visible = w.visible := by
  have same := view.twins.visible
  rw [List.drop_zero] at same
  exact same

/-- Whole views of the same bytes show the same bytes. -/
theorem SameView.whole {v w : Stream} (view : SameView v w) :
    SameView (v.part 0 v.length) (w.part 0 w.length) := by
  have parts := sameView_part view.twins view.beside (Nat.zero_le w.length) (Nat.le_refl _)
  rw [Nat.zero_add, Nat.zero_add] at parts
  rw [view.length_eq]
  exact parts

/-! ### Other positions -/

section Positions

variable {p : Nat} {s₀ t₀ s t : Stream} {admitted : IoError → Prop}

theorem setPosition_inStep (beside : Beside p s₀ t₀ s t) (position : Nat) :
    InStep admitted (Beside p s₀ t₀) (Equally (Beside p s₀ t₀)) (setPosition (p + position) s)
      (setPosition position t) := .ok ⟨rfl, beside.seek position⟩

theorem goTo_inStep (beside : Beside 0 s₀ t₀ s t) (position : Nat) :
    InStep admitted (Beside 0 s₀ t₀) (Equally (Beside 0 s₀ t₀)) (setPosition position s)
      (setPosition position t) :=
  .ok ⟨rfl, beside.goTo position⟩

theorem skip_inStep (beside : Beside 0 s₀ t₀ s t) (count : Nat) :
    InStep admitted (Beside 0 s₀ t₀) (Equally (Beside 0 s₀ t₀)) (skip count s) (skip count t) := by
  rw [skip, skip, beside.position_same]
  exact goTo_inStep beside _

end Positions

end Stream

namespace Reading

variable {ε σ α : Type} [OfIoError ε] {admitted : ε → Prop} {finds : σ → σ → Prop} {p : Nat}
  {s₀ t₀ : Stream} {r r' : Reading σ}

/-- A reader takes what a stream yields of a number of bytes, or fails for want of them. -/
theorem takes_inStep {step : StreamM α} {width : Nat} {made : List UInt8 → α}
    (takes : Stream.Takes step width made) (twins : Stream.Twins p s₀ t₀)
    (alike : Alike (Stream.Beside p s₀ t₀) finds r r')
    (known : ∀ e, Stream.Short e → admitted (OfIoError.ofIo e)) :
    InStep admitted (Alike (Stream.Beside p s₀ t₀) finds)
      (Equally (Alike (Stream.Beside p s₀ t₀) finds))
      ((onStream step : ReadingM ε σ α) r) ((onStream step : ReadingM ε σ α) r') :=
  onStream_equally alike known (takes.inStep twins alike.stream)

end Reading

end PackageAssets
