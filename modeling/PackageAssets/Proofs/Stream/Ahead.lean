import PackageAssets.Proofs.Bytes.Stored
import PackageAssets.Proofs.Stream.Steps

/-!
# What a stream has ahead

A reader sees only the bytes between its position and the end of its window.
For a stream in memory these bytes, `ahead`, determine what every read yields
and how far it moves; the source, the window and what lies before the position
do not matter. Reads are described twice: by what they take off `ahead`, and
for the case that `ahead` is known to start with certain bytes.
-/
namespace PackageAssets

/-- The window lies in a source of `length` bytes. -/
def Window.Within (length : Nat) : Window → Prop
  | root => True
  | slice start stop => start ≤ stop ∧ stop ≤ length

instance Window.decidableWithin (length : Nat) : (w : Window) → Decidable (w.Within length)
  | root => .isTrue trivial
  | slice start stop => inferInstanceAs (Decidable (start ≤ stop ∧ stop ≤ length))

theorem Window.Within.mono {w : Window} {m n : Nat} (within : w.Within m) (longer : m ≤ n) :
    w.Within n := by
  cases w with
  | root => trivial
  | slice start stop => exact ⟨within.1, Nat.le_trans within.2 longer⟩

namespace Source

/-- Reads from this position do not fail. -/
def Reaches (s : Source) (position : Nat) : Prop :=
  match s.storage with
  | .memory _ => True
  | .file _ furthest => position ≤ furthest
  | .directory => False

theorem Reaches.mono {s : Source} {near far : Nat} (reaches : s.Reaches far) (before : near ≤ far) :
    s.Reaches near := by
  obtain ⟨content, storage⟩ := s
  cases storage with
  | memory room => trivial
  | file writable furthest => exact Nat.le_trans before reaches
  | directory => exact reaches

theorem Reaches.readAt {s : Source} {position : Nat} (reaches : s.Reaches position)
    (count : Nat) : s.readAt position count = .ok (bytesAt s.content position count) := by
  obtain ⟨content, storage⟩ := s
  cases storage with
  | memory room => rfl
  | file writable furthest => exact if_neg (Nat.not_lt.mpr reaches)
  | directory => exact reaches.elim

theorem reaches_of_memory {s : Source} (inMemory : ∃ room, s.storage = .memory room)
    (position : Nat) : s.Reaches position := by
  obtain ⟨room, h⟩ := inMemory
  simp [Reaches, h]

end Source

namespace Stream

/-- The stream stands on bytes in memory, whose number is a count, and its window lies in them. -/
structure Sound (s : Stream) : Prop where
  inMemory : ∃ room, s.source.storage = .memory room
  counted : s.source.length < Count.bound
  within : s.window.Within s.source.length

/-- What is ahead can be read, in memory or from a file. Behind the end of a slice nothing is read,
wherever the position is. -/
structure Held (s : Stream) : Prop where
  within : s.window.Within s.source.length
  counted : ∀ start stop, s.window = .slice start stop → stop < Count.bound
  whole : s.source.Reaches s.source.length
  here : s.window = .root → s.source.Reaches s.position

/-- The bytes in the window. -/
def visible (s : Stream) : List UInt8 :=
  match s.window with
  | .root => s.source.content
  | .slice start stop => Source.bytesAt s.source.content start (stop - start)

/-- The bytes from the position to the end of the window. -/
def ahead (s : Stream) : List UInt8 := s.visible.drop s.position

theorem sound_ofBytes {bytes : List UInt8} (counted : bytes.length < Count.bound) :
    (ofBytes bytes).Sound :=
  ⟨⟨bytes.length, rfl⟩, counted, trivial⟩

@[simp] theorem visible_ofBytes (bytes : List UInt8) : (ofBytes bytes).visible = bytes := rfl

theorem Sound.seek {s : Stream} (h : s.Sound) (position : Nat) : (s.seek position).Sound :=
  ⟨h.inMemory, h.counted, h.within⟩

@[simp] theorem seek_position (s : Stream) (p : Nat) : (s.seek p).position = p := rfl

@[simp] theorem seek_seek (s : Stream) (p q : Nat) : (s.seek p).seek q = s.seek q := rfl

@[simp] theorem seek_self (s : Stream) : s.seek s.position = s := rfl

@[simp] theorem length_seek (s : Stream) (p : Nat) : (s.seek p).length = s.length := rfl

theorem ahead_seek (s : Stream) (p : Nat) : (s.seek p).ahead = s.visible.drop p := rfl

theorem ahead_seek_add (s : Stream) (n : Nat) :
    (s.seek (s.position + n)).ahead = s.ahead.drop n := by
  rw [ahead_seek, ahead, List.drop_drop]

theorem length_visible_of_within {s : Stream} (within : s.window.Within s.source.length) :
    s.visible.length = s.length := by
  unfold visible length
  cases hw : s.window with
  | root => rfl
  | slice start stop =>
    rw [hw, Window.Within, Source.length] at within
    simp only [Source.bytesAt, List.length_take, List.length_drop]
    omega

theorem length_visible {s : Stream} (h : s.Sound) : s.visible.length = s.length :=
  length_visible_of_within h.within

theorem length_ahead_of_within {s : Stream} (within : s.window.Within s.source.length) :
    s.ahead.length = s.remaining := by
  rw [ahead, List.length_drop, length_visible_of_within within, remaining]

theorem length_ahead {s : Stream} (h : s.Sound) : s.ahead.length = s.remaining :=
  length_ahead_of_within h.within

theorem length_ahead_lt {s : Stream} (h : s.Sound) : s.ahead.length < s.remaining + 1 := by
  rw [length_ahead h]
  exact Nat.lt_succ_self _

theorem length_lt_bound {s : Stream} (h : s.Sound) : s.length < Count.bound := by
  obtain ⟨-, counted, within⟩ := h
  unfold length
  cases hw : s.window with
  | root => exact counted
  | slice start stop =>
    rw [hw, Window.Within] at within
    exact Nat.lt_of_le_of_lt (Nat.le_trans (Nat.sub_le stop start) within.2) counted

/-- A position with bytes ahead of it lies before the end of the window. -/
theorem position_add_le_length {s : Stream} (h : s.Sound) {n : Nat} (positive : 0 < n)
    (enough : n ≤ s.ahead.length) : s.position + n ≤ s.length := by
  rw [length_ahead h, remaining] at enough
  omega

theorem allowance_eq {s : Stream} {start stop : Nat} (window : s.window = .slice start stop)
    (counted : stop < Count.bound) (count : Nat) :
    s.allowance count = min count (stop - (start + s.position)) := by
  simp only [allowance, window, Count.clamp, Count.top]
  unfold Count.bound at counted
  omega

/-- What the window lets through of the source is what is ahead. -/
theorem bytesAt_allowance {s : Stream}
    (counted : ∀ start stop, s.window = .slice start stop → stop < Count.bound) (count : Nat) :
    Source.bytesAt s.source.content s.absolute (s.allowance count) = s.ahead.take count := by
  unfold absolute ahead visible
  cases hw : s.window with
  | root => simp [Window.base, allowance, hw, Source.bytesAt]
  | slice start stop =>
    rw [allowance_eq hw (counted start stop hw)]
    simp only [Window.base, Source.bytesAt, List.drop_take, List.drop_drop, List.take_take]
    congr 1
    omega

theorem Sound.stop_lt_bound {s : Stream} (h : s.Sound) {start stop : Nat}
    (window : s.window = .slice start stop) : stop < Count.bound := by
  have within := h.within
  rw [window, Window.Within] at within
  exact Nat.lt_of_le_of_lt within.2 h.counted

theorem Sound.held {s : Stream} (h : s.Sound) : s.Held where
  within := h.within
  counted _ _ := h.stop_lt_bound
  whole := Source.reaches_of_memory h.inMemory _
  here _ := Source.reaches_of_memory h.inMemory _

/-- A file is held unless it reaches behind the end of its disk. -/
theorem held_ofFile {bytes : List UInt8} {furthest : Nat} (onDisk : bytes.length ≤ furthest)
    (writable : Bool) : (onSource (.ofFile bytes writable furthest)).Held where
  within := trivial
  counted _ _ window := by cases window
  whole := onDisk
  here _ := Nat.zero_le _

section Held

variable {s : Stream} (held : s.Held)

include held

/-- What the window lets through can be read. -/
theorem reaches_of_allowed {count : Nat} (allowed : s.allowance count ≠ 0) :
    s.source.Reaches s.absolute := by
  have within := held.within
  cases window : s.window with
  | root =>
    rw [absolute, window, Window.base, Nat.zero_add]
    exact held.here window
  | slice start stop =>
    rw [allowance_eq window (held.counted start stop window)] at allowed
    rw [window, Window.Within] at within
    refine held.whole.mono ?_
    rw [absolute, window, Window.base]
    omega

/-- A read yields what is ahead, as far as it was asked for, and moves past it. -/
theorem readBytes_of_held (count : Nat) :
    readBytes count s =
      .ok (s.ahead.take count) (s.seek (s.position + min count s.ahead.length)) := by
  have found := bytesAt_allowance held.counted count
  have moved : (s.ahead.take count).length = min count s.ahead.length := List.length_take
  unfold readBytes
  by_cases none : s.allowance count = 0
  · rw [none, Source.bytesAt, List.take_zero] at found
    rw [← found, List.length_nil] at moved
    simp only [none, if_true, ← found, ← moved, Nat.add_zero, seek_self]
  · simp only [none, if_false, (reaches_of_allowed held none).readAt, found, moved]

theorem readExact_of_held (count : Nat) :
    readExact count s =
      if count ≤ s.ahead.length then .ok (s.ahead.take count) (s.seek (s.position + count))
      else .error (.notEnough count s.ahead.length) s := by
  have moved : (s.ahead.take count).length = min count s.ahead.length := List.length_take
  simp only [readExact, readBytes_of_held held, moved]
  by_cases enough : count ≤ s.ahead.length
  · rw [if_pos (by omega), if_pos enough, Nat.min_eq_left enough]
  · rw [if_neg (by omega), if_neg enough, Nat.min_eq_right (by omega), seek_seek, seek_self]

/-- An exact read, of which something is made afterwards. -/
theorem readExact_bind_of_held {α : Type} (count : Nat) (made : List UInt8 → α) :
    (readExact count >>= fun bytes => pure (made bytes)) s =
      if count ≤ s.ahead.length then
        .ok (made (s.ahead.take count)) (s.seek (s.position + count))
      else .error (.notEnough count s.ahead.length) s := by
  have hread := readExact_of_held held count
  by_cases enough : count ≤ s.ahead.length
  · rw [if_pos enough] at hread ⊢
    exact bind_of_ok hread
  · rw [if_neg enough] at hread ⊢
    exact bind_of_error hread

/-- Past bytes that are ahead the others can still be read. -/
theorem Held.past {count : Nat} (there : count ≤ s.ahead.length) :
    (s.seek (s.position + count)).Held where
  within := held.within
  counted := held.counted
  whole := held.whole
  here root := by
    rcases Nat.eq_zero_or_pos count with rfl | some
    · exact held.here root
    have all : s.visible = s.source.content := by rw [visible, show s.window = .root from root]
    refine held.whole.mono ?_
    rw [ahead, all, List.length_drop, ← Source.length] at there
    rw [seek_position]
    omega

end Held

theorem readBytes_eq {s : Stream} (h : s.Sound) (count : Nat) :
    readBytes count s =
      .ok (s.ahead.take count) (s.seek (s.position + min count s.ahead.length)) :=
  readBytes_of_held h.held count

theorem readExact_eq {s : Stream} (h : s.Sound) (count : Nat) :
    readExact count s =
      if count ≤ s.ahead.length then .ok (s.ahead.take count) (s.seek (s.position + count))
      else .error (.notEnough count s.ahead.length) s :=
  readExact_of_held h.held count

theorem readRemaining_eq {s : Stream} (h : s.Sound) :
    readRemaining s = .ok s.ahead (s.seek (s.position + s.ahead.length)) := by
  rw [readRemaining, readBytes_eq h, ← length_ahead h, List.take_length, Nat.min_self]

theorem readExact_bind {α : Type} {s : Stream} (h : s.Sound) (count : Nat)
    (made : List UInt8 → α) :
    (readExact count >>= fun bytes => pure (made bytes)) s =
      if count ≤ s.ahead.length then
        .ok (made (s.ahead.take count)) (s.seek (s.position + count))
      else .error (.notEnough count s.ahead.length) s :=
  readExact_bind_of_held h.held count made

theorem readNat_eq {s : Stream} (h : s.Sound) (order : ByteOrder) (width : Nat) :
    readNat order width s =
      if width ≤ s.ahead.length then
        .ok (order.read (s.ahead.take width)) (s.seek (s.position + width))
      else .error (.notEnough width s.ahead.length) s :=
  readExact_bind h width order.read

theorem readInt_eq {s : Stream} (h : s.Sound) (format : IntFormat) :
    readInt format s =
      if format.width ≤ s.ahead.length then
        .ok (format.decode (s.ahead.take format.width)) (s.seek (s.position + format.width))
      else .error (.notEnough format.width s.ahead.length) s :=
  readExact_bind h format.width format.decode

/-! ### Bytes known to be ahead -/

theorem ahead_seek_append {s : Stream} {front rest : List UInt8}
    (known : s.ahead = front ++ rest) : (s.seek (s.position + front.length)).ahead = rest := by
  rw [ahead_seek_add, known, List.drop_left]

theorem ahead_seek_cons {s : Stream} {b : UInt8} {rest : List UInt8}
    (known : s.ahead = b :: rest) : (s.seek (s.position + 1)).ahead = rest := by
  rw [ahead_seek_add, known, List.drop_one, List.tail_cons]

theorem readExact_append {s : Stream} (h : s.Sound) {front rest : List UInt8}
    (known : s.ahead = front ++ rest) :
    readExact front.length s = .ok front (s.seek (s.position + front.length)) := by
  rw [readExact_eq h, known, List.length_append, if_pos (Nat.le_add_right _ _), List.take_left]

theorem readNat_append {s : Stream} (h : s.Sound) {order : ByteOrder} {width n : Nat}
    {rest : List UInt8} (fits : n < 256 ^ width) (known : s.ahead = order.write width n ++ rest) :
    readNat order width s = .ok n (s.seek (s.position + width)) := by
  have size : (order.write width n).length = width := ByteOrder.length_write order width n
  rw [readNat_eq h, known, List.length_append, size, if_pos (Nat.le_add_right _ _),
    List.take_left' size, ByteOrder.read_write order fits]

theorem ahead_seek_write {s : Stream} {order : ByteOrder} {width n : Nat} {rest : List UInt8}
    (known : s.ahead = order.write width n ++ rest) :
    (s.seek (s.position + width)).ahead = rest := by
  rw [ahead_seek_add, known, List.drop_left' (ByteOrder.length_write order width n)]

/-! ### Views -/

/-- The view of the window from `start` to `stop`. -/
def part (s : Stream) (start stop : Nat) : Stream :=
  ⟨s.source, .start (.slice (s.window.base + start) (s.window.base + stop))⟩

theorem base_add_length_le_of_within {s : Stream} (within : s.window.Within s.source.length) :
    s.window.base + s.length ≤ s.source.length := by
  unfold length
  cases hw : s.window with
  | root => simp [Window.base]
  | slice start stop =>
    rw [hw, Window.Within] at within
    simp only [Window.base]
    omega

theorem base_add_length_le {s : Stream} (h : s.Sound) :
    s.window.base + s.length ≤ s.source.length := base_add_length_le_of_within h.within

theorem sound_part {s : Stream} (h : s.Sound) {start stop : Nat} (ordered : start ≤ stop)
    (inside : stop ≤ s.length) : (s.part start stop).Sound := by
  have := base_add_length_le h
  refine ⟨h.inMemory, h.counted, ?_⟩
  change s.window.base + start ≤ s.window.base + stop ∧ s.window.base + stop ≤ s.source.length
  omega

theorem ahead_part {s : Stream} (start : Nat) {stop : Nat} (inside : stop ≤ s.length) :
    (s.part start stop).ahead = (s.visible.drop start).take (stop - start) := by
  change (Source.bytesAt s.source.content (s.window.base + start)
    (s.window.base + stop - (s.window.base + start))).drop 0 = _
  rw [List.drop_zero, Nat.add_sub_add_left]
  unfold length at inside
  unfold visible
  cases hw : s.window with
  | root => simp [Window.base, Source.bytesAt]
  | slice first last =>
    simp only [hw] at inside
    simp only [Window.base, Source.bytesAt, List.drop_take, List.drop_drop, List.take_take]
    congr 1
    omega

theorem slice_eq (s : Stream) (lower upper : Edge) :
    s.slice lower upper =
      let range := resolve lower upper s.length
      if range.2 < range.1 ∨ s.length < range.2 then
        .error (.outOfBounds range.1 range.2 s.length)
      else .ok (s.part range.1 range.2) := rfl

theorem slice_between {s : Stream} {start stop : Nat} (ordered : start ≤ stop)
    (inside : stop ≤ s.length) :
    s.slice (.included start) (.excluded stop) = .ok (s.part start stop) := by
  rw [slice_eq]
  apply if_neg
  change ¬(stop < start ∨ s.length < stop)
  omega

theorem slice_from {s : Stream} {start : Nat} (inside : start ≤ s.length) :
    s.slice (.included start) .unbounded = .ok (s.part start s.length) := by
  rw [slice_eq]
  apply if_neg
  change ¬(s.length < start ∨ s.length < s.length)
  omega

/-- A view from `start` to the end of the window. -/
theorem exists_view_from {s : Stream} (h : s.Sound) {start : Nat} (inside : start ≤ s.length) :
    ∃ view, s.slice (.included start) .unbounded = .ok view ∧ view.Sound ∧
      view.visible = s.visible.drop start ∧ view.ahead = s.visible.drop start := by
  have size := length_visible h
  have view := ahead_part start (Nat.le_refl s.length)
  rw [List.take_of_length_le (by rw [List.length_drop]; omega)] at view
  exact ⟨_, slice_from inside, sound_part h inside (Nat.le_refl _), view, view⟩

/-- A view of the bytes from `start` to `stop`. -/
theorem exists_view_between {s : Stream} (h : s.Sound) {start stop : Nat} (ordered : start ≤ stop)
    (inside : stop ≤ s.length) :
    ∃ view, s.slice (.included start) (.excluded stop) = .ok view ∧ view.Sound ∧
      view.ahead = (s.visible.drop start).take (stop - start) :=
  ⟨_, slice_between ordered inside, sound_part h ordered inside, ahead_part start inside⟩

/-- A view of the bytes behind `front`. -/
theorem slice_append {s : Stream} (h : s.Sound) {front rest : List UInt8}
    (known : s.visible = front ++ rest) :
    ∃ view, s.slice (.included front.length) .unbounded = .ok view ∧ view.Sound ∧
      view.visible = rest ∧ view.ahead = rest := by
  have size := length_visible h
  rw [known, List.length_append] at size
  have inside : front.length ≤ s.length := by omega
  obtain ⟨view, hslice, sound, visible, ahead⟩ := exists_view_from h inside
  rw [known, List.drop_left] at visible ahead
  exact ⟨view, hslice, sound, visible, ahead⟩

/-- A view of bytes that are there; the position moves past them. -/
theorem readStream_eq {s : Stream} (h : s.Sound) {count : Nat}
    (inside : s.position + count ≤ s.length) :
    readStream count s =
      .ok (s.part s.position (s.position + count)) (s.seek (s.position + count)) := by
  have small : s.position + count ≤ Count.top := by
    have := length_lt_bound h
    unfold Count.bound at this
    unfold Count.top
    omega
  have enough : ¬s.remaining < count := by
    rw [remaining]
    omega
  rw [readStream, if_neg enough, slice_between (Nat.le_add_right _ _) inside,
    Count.clamp_of_le small]

theorem readStream_short {s : Stream} {count : Nat} (short : s.remaining < count) :
    readStream count s = .error (.notEnough count s.remaining) s := by
  rw [readStream, if_pos short]

end Stream

end PackageAssets
