import PackageAssets.Proofs.Stream.Ahead
import PackageAssets.Proofs.Stream.Touches

/-!
# What a writer emits

A writer made of several writes puts the bytes of its parts in a row at the
position, into any sink in memory. A root window takes them all, unless they
would end behind the longest vector. A slice takes all of them or, if they do not fit, a
beginning: the write that would cross its end is refused whole, and what was
written before it stays.
-/
namespace PackageAssets.Stream

/-- That many bytes at the position stay inside the window; a root window grows with them. -/
def Fits (s : Stream) (count : Nat) : Prop :=
  match s.window with
  | .root => True
  | .slice start stop => s.position + count ≤ stop - start

/-- A stream over memory. A slice lies in its source and ends inside the longest vector. -/
structure Sink (s : Stream) : Prop where
  inMemory : s.source.InMemory
  within : s.window.Within s.source.length
  addressable : ∀ start stop, s.window = .slice start stop → stop ≤ Source.longestVector

/-- `t` is left by `s` when these bytes were written at its position. To write nothing may fill a
gap before the position or not. -/
structure Wrote (s : Stream) (bytes : List UInt8) (t : Stream) : Prop where
  cursor : t.cursor = (s.seek (s.position + bytes.length)).cursor
  content : t.source.content = Source.overwrite s.source.content s.absolute bytes ∨
    bytes = [] ∧ t.source.content = s.source.content

/-- `t` is left by `s` when these bytes were put at its position, or when there were none to put. -/
structure Put (s : Stream) (bytes : List UInt8) (t : Stream) : Prop where
  cursor : t.cursor = (s.seek (s.position + bytes.length)).cursor
  inMemory : t.source.InMemory
  content : (s.Fits bytes.length ∧ s.absolute + bytes.length ≤ Source.longestVector ∧
      t.source.content = Source.overwrite s.source.content s.absolute bytes) ∨
    bytes = [] ∧ t.source.content = s.source.content

/-- What may come of writing these bytes at the position. -/
inductive Emitted (s : Stream) (bytes : List UInt8) :
    EStateM.Result IoError Stream Unit → Prop where
  | whole {t : Stream} (put : s.Put bytes t) : Emitted s bytes (.ok () t)
  | cut {front : List UInt8} {t : Stream} {start stop limit : Nat} (begins : front <+: bytes)
      (crosses : ¬s.Fits bytes.length) (put : s.Put front t) :
      Emitted s bytes (.error (.outOfBounds start stop limit) t)
  | overflow {e : IoError} {t : Stream} (root : s.window = .root)
      (large : Source.longestVector < s.absolute + bytes.length) : Emitted s bytes (.error e t)

/-- The step writes these bytes, into every sink. -/
def Emits (step : StreamM Unit) (bytes : List UInt8) : Prop :=
  ∀ s : Stream, s.Sink → s.Emitted bytes (step s)

variable {s t u : Stream} {bytes front back : List UInt8}

theorem Fits.mono {few many : Nat} (fits : s.Fits many) (fewer : few ≤ many) : s.Fits few := by
  unfold Fits at fits ⊢
  split
  · trivial
  case h_2 start stop window =>
    rw [window] at fits
    exact Nat.le_trans (Nat.add_le_add_left fewer _) fits

/-- What fits is in the source, unless the window grows. -/
theorem Fits.absolute_le {start stop count : Nat} (fits : s.Fits count)
    (window : s.window = .slice start stop) (within : s.window.Within s.source.length) :
    s.absolute + count ≤ stop := by
  rw [window] at within
  rw [Fits, window] at fits
  rw [absolute, window, Window.base]
  have := within.1
  dsimp only at fits
  omega

/-- What fits is let through. -/
theorem Fits.allowance_eq {count : Nat} (fits : s.Fits count)
    (counted : ∀ start stop, s.window = .slice start stop → stop < Count.bound) :
    s.allowance count = count := by
  cases window : s.window with
  | root => rw [allowance, window]
  | slice start stop =>
    rw [Stream.allowance_eq window (counted start stop window)]
    rw [Fits, window] at fits
    dsimp only at fits
    omega

/-! ### Written bytes -/

/-- `t` differs from `s` in these bytes at its position, and stands behind them. -/
structure Overwritten (s : Stream) (bytes : List UInt8) (t : Stream) : Prop where
  window : t.window = s.window
  position : t.position = s.position + bytes.length
  there : ∀ i, i < bytes.length → t.source.content[s.absolute + i]? = bytes[i]?
  others : ∀ i, i < s.source.length → i < s.absolute ∨ s.absolute + bytes.length ≤ i →
    t.source.content[i]? = s.source.content[i]?

namespace Wrote

theorem refl (s : Stream) : s.Wrote [] s := ⟨rfl, .inr ⟨rfl, rfl⟩⟩

theorem window (wrote : s.Wrote bytes t) : t.window = s.window := by
  rw [Stream.window, wrote.cursor]
  rfl

theorem position (wrote : s.Wrote bytes t) : t.position = s.position + bytes.length :=
  congrArg Cursor.position wrote.cursor

theorem absolute (wrote : s.Wrote bytes t) : t.absolute = s.absolute + bytes.length := by
  rw [Stream.absolute, Stream.absolute, wrote.window, wrote.position, Nat.add_assoc]

theorem length_eq (wrote : s.Wrote bytes t) :
    t.source.length = max (s.absolute + bytes.length) s.source.length ∨
      bytes = [] ∧ t.source.length = s.source.length := by
  rcases wrote.content with written | ⟨nothing, same⟩
  · left
    simp only [Source.length, written, Source.length_overwrite]
  · exact .inr ⟨nothing, congrArg List.length same⟩

theorem length_le (wrote : s.Wrote bytes t) : s.source.length ≤ t.source.length := by
  rcases wrote.length_eq with longer | ⟨-, same⟩ <;> omega

theorem fits_iff (wrote : s.Wrote bytes t) (count : Nat) :
    t.Fits count ↔ s.Fits (bytes.length + count) := by
  simp only [Fits, wrote.window, wrote.position, Nat.add_assoc]

/-- Bytes written behind bytes that were written. -/
theorem trans (first : s.Wrote front t) (second : t.Wrote back u) : s.Wrote (front ++ back) u where
  cursor := by
    have later := second.cursor
    rw [first.position, Nat.add_assoc, ← List.length_append] at later
    simp only [later, seek, first.cursor]
  content := by
    rcases second.content with later | ⟨rfl, later⟩
    · left
      rcases first.content with earlier | ⟨rfl, earlier⟩
      · rw [later, first.absolute, earlier, Source.overwrite_overwrite]
      · rw [later, first.absolute, earlier]
        rfl
    · rw [List.append_nil, later]
      exact first.content

theorem overwritten (wrote : s.Wrote bytes t) : s.Overwritten bytes t where
  window := wrote.window
  position := wrote.position
  there i inside := by
    rcases wrote.content with written | ⟨rfl, -⟩
    · rw [written, Source.getElem?_overwrite_add, if_pos inside]
    · exact absurd inside (Nat.not_lt_zero i)
  others i held outside := by
    rcases wrote.content with written | ⟨-, same⟩
    · rcases outside with before | behind
      · rw [written, Source.getElem?_overwrite_of_lt _ _ _ before]
        exact if_pos held
      · obtain ⟨k, rfl⟩ := Nat.exists_eq_add_of_le (Nat.le_trans (Nat.le_add_right _ _) behind)
        rw [written, Source.getElem?_overwrite_add, if_neg (by omega)]
    · rw [same]

/-- The bytes are found where they were written. -/
theorem bytesAt_there (wrote : s.Wrote bytes t) :
    Source.bytesAt t.source.content s.absolute bytes.length = bytes := by
  rcases wrote.content with written | ⟨rfl, -⟩
  · rw [written, Source.bytesAt, Source.overwrite_eq, List.drop_left' (Source.length_front _ _),
      List.take_left]
  · rfl

/-- Of bytes that were written, the last ones are found behind the others. -/
theorem bytesAt_behind (wrote : s.Wrote (front ++ back) t) :
    Source.bytesAt t.source.content (s.absolute + front.length) back.length = back := by
  have last := congrArg (List.drop front.length) wrote.bytesAt_there
  rwa [List.drop_left, Source.bytesAt, List.drop_take, List.drop_drop, List.length_append,
    Nat.add_sub_cancel_left] at last

/-- Bytes that were written at a position are ahead of it. -/
theorem ahead_there (wrote : s.Wrote bytes t) (fits : s.Fits bytes.length)
    (counted : ∀ start stop, s.window = .slice start stop → stop < Count.bound) :
    ∃ rest, (t.seek s.position).ahead = bytes ++ rest := by
  have window : (t.seek s.position).window = s.window := wrote.window
  have place : (t.seek s.position).absolute = s.absolute :=
    congrArg (Window.base · + s.position) window
  have whole : (t.seek s.position).allowance bytes.length = bytes.length := by
    apply Fits.allowance_eq
    · rwa [Fits, window]
    · rwa [window]
  have found : (t.seek s.position).ahead.take bytes.length = bytes := by
    rw [← bytesAt_allowance (by rwa [window]), whole, place]
    exact wrote.bytesAt_there
  refine ⟨(t.seek s.position).ahead.drop bytes.length, ?_⟩
  rw [← List.take_append_drop bytes.length (t.seek s.position).ahead, found, List.drop_left]

end Wrote

/-! ### Putting bytes -/

namespace Put

theorem refl (sink : s.Sink) : s.Put [] s := ⟨rfl, sink.inMemory, Or.inr ⟨rfl, rfl⟩⟩

theorem wrote (put : s.Put bytes t) : s.Wrote bytes t :=
  ⟨put.cursor, put.content.imp_left fun written => written.2.2⟩

theorem window (put : s.Put bytes t) : t.window = s.window := put.wrote.window

theorem position (put : s.Put bytes t) : t.position = s.position + bytes.length :=
  put.wrote.position

theorem absolute (put : s.Put bytes t) : t.absolute = s.absolute + bytes.length :=
  put.wrote.absolute

theorem length_le (put : s.Put bytes t) : s.source.length ≤ t.source.length := put.wrote.length_le

theorem sink (put : s.Put bytes t) (sink : s.Sink) : t.Sink where
  inMemory := put.inMemory
  within := by
    rw [put.window]
    exact sink.within.mono put.length_le
  addressable start stop window := sink.addressable start stop (put.window.symm.trans window)

theorem fits_iff (put : s.Put bytes t) (count : Nat) :
    t.Fits count ↔ s.Fits (bytes.length + count) := put.wrote.fits_iff count

/-- Bytes put behind bytes that were put. -/
theorem trans (first : s.Put front t) (second : t.Put back u) : s.Put (front ++ back) u where
  cursor := (first.wrote.trans second.wrote).cursor
  inMemory := second.inMemory
  content := by
    rcases (first.wrote.trans second.wrote).content with written | same
    · rcases second.content with ⟨fits, counted, -⟩ | ⟨rfl, later⟩
      · left
        rw [first.fits_iff] at fits
        rw [first.absolute, Nat.add_assoc] at counted
        rw [List.length_append]
        exact ⟨fits, counted, written⟩
      · rw [List.append_nil, later]
        exact first.content
    · exact .inr same

theorem overwritten (put : s.Put bytes t) : s.Overwritten bytes t := put.wrote.overwritten

theorem fits (put : s.Put bytes t) : bytes = [] ∨ s.Fits bytes.length := by
  rcases put.content with ⟨fits, -⟩ | ⟨nothing, -⟩
  · exact Or.inr fits
  · exact Or.inl nothing

/-- A slice does not grow. -/
theorem length_eq {start stop : Nat} (put : s.Put bytes t) (sink : s.Sink)
    (window : s.window = .slice start stop) : t.source.length = s.source.length := by
  rcases put.content with ⟨fits, -, written⟩ | ⟨-, same⟩
  · have inside := fits.absolute_le window sink.within
    have within := sink.within
    rw [window] at within
    rw [Source.length, written, Source.length_overwrite]
    exact Nat.max_eq_right (Nat.le_trans inside within.2)
  · exact congrArg List.length same

end Put

/-! ### Steps -/

/-- Whether a write is refused is a question of room. -/
theorem crosses_iff_of_addressable (within : s.window.Within s.source.length)
    (addressable : ∀ start stop, s.window = .slice start stop → stop < Count.top) (count : Nat) :
    s.crosses count = true ↔ ¬s.Fits count := by
  cases window : s.window with
  | root => simp [crosses, Fits, window]
  | slice start stop =>
    have small := addressable start stop window
    rw [window] at within
    have ordered : start ≤ stop := within.1
    simp only [crosses, Fits, window, decide_eq_true_eq]
    unfold Count.clamp
    omega

theorem Sink.lt_top (sink : s.Sink) (start stop : Nat) (window : s.window = .slice start stop) :
    stop < Count.top :=
  Nat.lt_of_le_of_lt (sink.addressable start stop window) (by decide)

theorem crosses_iff (sink : s.Sink) (count : Nat) : s.crosses count = true ↔ ¬s.Fits count :=
  crosses_iff_of_addressable sink.within sink.lt_top count

/-- What fits in a slice ends inside the longest vector. -/
theorem Fits.root_of_long {count : Nat} (fits : s.Fits count) (sink : s.Sink)
    (long : Source.longestVector < s.absolute + count) : s.window = .root := by
  cases window : s.window with
  | root => rfl
  | slice start stop =>
    have inside := fits.absolute_le window sink.within
    have short := sink.addressable start stop window
    omega

theorem emits_writeBytes (bytes : List UInt8) : Emits (writeBytes bytes) bytes := by
  intro s sink
  rw [writeBytes_eq]
  by_cases fits : s.Fits bytes.length
  · rw [if_neg fun crosses => (crosses_iff sink _).mp crosses fits]
    obtain ⟨room, inMemory⟩ := sink.inMemory
    by_cases long : Source.longestVector < s.absolute + bytes.length
    · obtain ⟨e, refused, -⟩ := Source.writeAt_memory_long inMemory long
      rw [refused]
      exact .overflow (fits.root_of_long sink long) long
    · have short := Nat.not_lt.mp long
      rw [Source.writeAt_memory inMemory short]
      exact .whole ⟨rfl, ⟨_, rfl⟩, Or.inl ⟨fits, short, rfl⟩⟩
  · rw [if_pos ((crosses_iff sink _).mpr fits)]
    exact .cut List.nil_prefix fits (.refl sink)

theorem emits_writeNat (order : ByteOrder) {width n : Nat} (fits : n < 256 ^ width) :
    Emits (writeNat order width n) (order.write width n) := by
  rw [writeNat, if_pos fits]
  exact emits_writeBytes _

theorem lt_of_writeNat {order : ByteOrder} {width n : Nat} {s t : Stream}
    (h : writeNat order width n s = .ok () t) : n < 256 ^ width := by
  by_cases fits : n < 256 ^ width
  · exact fits
  · rw [writeNat, if_neg fits] at h
    cases h

theorem emits_pure : Emits (pure ()) [] := fun _ sink => .whole (.refl sink)

theorem Emits.seq {first second : StreamM Unit} (hfirst : Emits first front)
    (hsecond : Emits second back) : Emits (first >>= fun _ => second) (front ++ back) := by
  intro s sink
  have earlier := hfirst s sink
  cases result : first s with
  | ok a t =>
    rw [result] at earlier
    rw [bind_of_ok result]
    cases earlier with
    | whole put =>
      have later := hsecond t (put.sink sink)
      cases outcome : second t with
      | ok a u =>
        rw [outcome] at later
        cases later with
        | whole behind => exact .whole (put.trans behind)
      | error e u =>
        rw [outcome] at later
        cases later with
        | cut begins crosses behind =>
          refine .cut ((List.prefix_append_right_inj front).mpr begins) ?_ (put.trans behind)
          rwa [List.length_append, ← put.fits_iff]
        | overflow root large =>
          refine .overflow (put.window.symm.trans root) ?_
          rwa [put.absolute, Nat.add_assoc, ← List.length_append] at large
  | error e t =>
    rw [result] at earlier
    rw [bind_of_error result]
    cases earlier with
    | cut begins crosses put =>
      refine .cut (begins.trans (List.prefix_append front back)) (fun fits => crosses ?_) put
      exact fits.mono (List.length_append ▸ Nat.le_add_right _ _)
    | overflow root large =>
      refine .overflow root (Nat.lt_of_lt_of_le large ?_)
      rw [List.length_append]
      omega

/-! ### Writers that count -/

variable {ε : Type} {step : StreamM Unit}

/-- A writer that yields the number of bytes written. -/
def counting (ofIo : IoError → ε) (step : StreamM Unit) : EStateM ε Stream Nat := fun s =>
  match step s with
  | .ok _ t => .ok (t.position - s.position) t
  | .error e t => .error (ofIo e) t

/-- A cursor on a vector of bytes, which is no longer than a vector can be. -/
structure OnVector (s : Stream) : Prop extends s.Sound where
  short : s.source.length ≤ Source.longestVector

theorem OnVector.seek (vector : s.OnVector) (position : Nat) : (s.seek position).OnVector :=
  ⟨vector.toSound.seek position, vector.short⟩

theorem OnVector.sink (vector : s.OnVector) : s.Sink where
  inMemory := vector.inMemory
  within := vector.within
  addressable start stop window := by
    have within := vector.within
    rw [window] at within
    exact Nat.le_trans within.2 vector.short

/--
The writer puts the bytes at the position of every sink that has room for them. Into a slice
that has not, it puts the first few of them and fails. Nothing else changes.
-/
structure Fills (ofIo : IoError → ε) (writer : EStateM ε Stream Nat) (bytes : List UInt8) :
    Prop where
  whole : ∀ s : Stream, s.OnVector → s.position + bytes.length < 2 ^ 63 → s.Fits bytes.length →
    ∃ t, writer s = .ok bytes.length t ∧ s.Overwritten bytes t ∧
      t.source.length = max (s.absolute + bytes.length) s.source.length ∧
      ∀ i, s.source.length ≤ i → i < s.absolute → t.source.content[i]? = some 0
  cut : ∀ s : Stream, s.OnVector → s.position + bytes.length < 2 ^ 63 → ¬s.Fits bytes.length →
    ∃ start stop limit t k, writer s = .error (ofIo (.outOfBounds start stop limit)) t ∧
      k < bytes.length ∧ (k = 0 ∨ s.Fits k) ∧ s.Overwritten (bytes.take k) t ∧
      t.source.length = s.source.length

/-- A window that does not take everything is a slice. -/
theorem slice_of_not_fits {count : Nat} (crosses : ¬s.Fits count) :
    ∃ start stop, s.window = .slice start stop := by
  cases window : s.window with
  | root =>
    refine absurd ?_ crosses
    rw [Fits, window]
    trivial
  | slice start stop => exact ⟨start, stop, rfl⟩

theorem Emits.fills (emits : Emits step bytes) (some : bytes ≠ [])
    (ofIo : IoError → ε) : Fills ofIo (counting ofIo step) bytes where
  whole s vector counted fits := by
    have emitted := emits s vector.sink
    unfold counting
    cases result : step s with
    | ok a t =>
      rw [result] at emitted
      cases emitted with
      | whole put =>
        obtain ⟨-, -, written⟩ := put.content.resolve_right fun nothing => some nothing.1
        refine ⟨t, ?_, put.overwritten, ?_, fun i beyond before => ?_⟩
        · dsimp only
          rw [put.position, Nat.add_sub_cancel_left]
        · rw [Source.length, written, Source.length_overwrite]
          rfl
        · rw [written, Source.getElem?_overwrite_of_lt _ _ _ before]
          exact if_neg (Nat.not_lt.mpr beyond)
    | error e t =>
      rw [result] at emitted
      cases emitted with
      | cut _ crosses _ => exact absurd fits crosses
      | overflow root large =>
        rw [absolute, root, Window.base, Nat.zero_add, Source.longestVector] at large
        omega
  cut s vector _ crosses := by
    have emitted := emits s vector.sink
    obtain ⟨first, last, window⟩ := slice_of_not_fits crosses
    unfold counting
    cases result : step s with
    | ok a t =>
      rw [result] at emitted
      cases emitted with
      | whole put => exact absurd (put.fits.resolve_left some) crosses
    | error e t =>
      rw [result] at emitted
      cases emitted with
      | cut begins refused put =>
        rename_i front start stop limit
        have part := List.prefix_iff_eq_take.mp begins
        have shorter : front.length ≠ bytes.length := by
          intro all
          have whole := begins.eq_of_length all
          rw [← whole] at crosses some
          exact crosses (put.fits.resolve_left some)
        refine ⟨start, stop, limit, t, front.length, rfl, ?_, ?_, ?_, ?_⟩
        · exact Nat.lt_of_le_of_ne begins.length_le shorter
        · exact put.fits.imp_left fun nothing => congrArg List.length nothing
        · rw [← part]
          exact put.overwritten
        · exact put.length_eq vector.sink window
      | overflow root large => cases window.symm.trans root

end PackageAssets.Stream
