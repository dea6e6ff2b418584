import PackageAssets.Proofs.Stream.Emits

/-!
# Writing to memory and to files

A write that was done has put its bytes at the position, whatever holds the source,
and left all other bytes as they were; only an empty write past the end may fill the
gap or not. It is done if there is room: inside the window, and in what holds the
source. Writers made of several writes put the bytes of their parts in a row.
-/
namespace PackageAssets

namespace Source

/-- Bytes up to this place can be written, and read again. -/
def Admits (s : Source) (stop : Nat) : Prop :=
  match s.storage with
  | .memory _ => stop ≤ longestVector
  | .file writable furthest => writable = true ∧ stop ≤ furthest
  | .directory => False

variable {s t : Source} {position : Nat} {bytes : List UInt8}

theorem Admits.mono {near far : Nat} (admits : s.Admits far) (before : near ≤ far) :
    s.Admits near := by
  obtain ⟨content, storage⟩ := s
  cases storage with
  | memory room => exact Nat.le_trans before admits
  | file writable furthest => exact ⟨admits.1, Nat.le_trans before admits.2⟩
  | directory => exact admits

theorem Admits.reaches (admits : s.Admits position) : s.Reaches position := by
  obtain ⟨content, storage⟩ := s
  cases storage with
  | memory room => trivial
  | file writable furthest => exact admits.2
  | directory => exact admits

theorem writeAt_of_admits (admits : s.Admits (position + bytes.length)) :
    ∃ t, s.writeAt position bytes = .ok t := by
  obtain ⟨content, storage⟩ := s
  cases storage with
  | memory room => exact ⟨_, writeAt_memory rfl admits⟩
  | file writable furthest =>
    obtain ⟨open_, near⟩ := admits
    have reached : ¬furthest < position := by omega
    by_cases nothing : bytes = []
    · simp [writeAt, reached, nothing]
    · simp [writeAt, reached, nothing, open_]
  | directory => exact admits.elim

/-- A write changes nothing about what can be written. -/
theorem admits_iff_of_writeAt (written : s.writeAt position bytes = .ok t) (stop : Nat) :
    t.Admits stop ↔ s.Admits stop := by
  obtain ⟨-, ⟨⟨room, before⟩, ⟨room', after⟩⟩ | same⟩ := of_writeAt written
  · simp only [Admits, before, after]
  · simp only [Admits, same]

end Source

namespace Stream

/-- `t` is left by `s` when these bytes were written, and no more or less can be written then. -/
structure Stored (s : Stream) (bytes : List UInt8) (t : Stream) : Prop
    extends s.Wrote bytes t where
  admits : ∀ stop, t.source.Admits stop ↔ s.source.Admits stop

/-- `t` differs from `s` in these bytes only; before them, a gap behind the end was filled. -/
structure Filled (s : Stream) (bytes : List UInt8) (t : Stream) : Prop
    extends s.Overwritten bytes t where
  grows : s.source.length ≤ t.source.length
  short : t.source.length ≤ max (s.absolute + bytes.length) s.source.length
  gap : ∀ i, s.source.length ≤ i → i < s.absolute → i < t.source.length →
    t.source.content[i]? = some 0

/-- The window lies in a source that can be written and read up to its end. -/
structure Editable (s : Stream) : Prop where
  within : s.window.Within s.source.length
  addressable : ∀ start stop, s.window = .slice start stop → stop < Count.top
  whole : s.source.Admits s.source.length

/-- That many bytes can be written at the position. -/
def RoomFor (s : Stream) (count : Nat) : Prop :=
  s.Fits count ∧ s.source.Admits (s.absolute + count)

variable {s t u : Stream} {bytes front back : List UInt8}

theorem OnVector.editable (vector : s.OnVector) : s.Editable where
  within := vector.within
  addressable := vector.sink.lt_top
  whole := by
    obtain ⟨room, storage⟩ := vector.inMemory
    simpa [Source.Admits, storage] using vector.short

/-- A file that was opened for writing, unless it reaches behind the end of its disk. -/
theorem editable_ofFile {furthest : Nat} (onDisk : bytes.length ≤ furthest) :
    (onSource (.ofFile bytes true furthest)).Editable where
  within := trivial
  addressable _ _ window := by cases window
  whole := ⟨rfl, onDisk⟩

theorem Editable.seek (editable : s.Editable) (position : Nat) : (s.seek position).Editable :=
  ⟨editable.within, editable.addressable, editable.whole⟩

theorem RoomFor.mono {few many : Nat} (room : s.RoomFor many) (fewer : few ≤ many) :
    s.RoomFor few :=
  ⟨room.1.mono fewer, room.2.mono (Nat.add_le_add_left fewer _)⟩

theorem Editable.counted (editable : s.Editable) (start stop : Nat)
    (window : s.window = .slice start stop) : stop < Count.bound :=
  Nat.lt_trans (editable.addressable start stop window) (by decide)

theorem Editable.held (editable : s.Editable) (room : s.RoomFor 0) : s.Held where
  within := editable.within
  counted := editable.counted
  whole := editable.whole.reaches
  here root := by
    have place : s.absolute = s.position := by
      rw [absolute, root, Window.base, Nat.zero_add]
    exact place ▸ room.2.reaches

/-- What can be told from outside of a write that was done. -/
theorem Wrote.filled (wrote : s.Wrote bytes t) : s.Filled bytes t where
  toOverwritten := wrote.overwritten
  grows := wrote.length_le
  short := by
    rcases wrote.length_eq with longer | ⟨-, same⟩ <;> omega
  gap i beyond before there := by
    rcases wrote.content with written | ⟨-, same⟩
    · rw [written, Source.getElem?_overwrite_of_lt _ _ _ before]
      exact if_neg (Nat.not_lt.mpr beyond)
    · rw [Source.length, same] at there
      exact absurd there (Nat.not_lt.mpr beyond)

namespace Stored

theorem refl (s : Stream) : s.Stored [] s := ⟨Wrote.refl s, fun _ => Iff.rfl⟩

/-- Bytes stored behind bytes that were stored. -/
theorem trans (first : s.Stored front t) (second : t.Stored back u) : s.Stored (front ++ back) u :=
  ⟨first.toWrote.trans second.toWrote, fun stop => (second.admits stop).trans (first.admits stop)⟩

theorem roomFor_iff (stored : s.Stored bytes t) (count : Nat) :
    t.RoomFor count ↔ s.RoomFor (bytes.length + count) := by
  simp only [RoomFor, stored.fits_iff, stored.absolute, stored.admits, Nat.add_assoc]

theorem editable (stored : s.Stored bytes t) (editable : s.Editable)
    (room : s.RoomFor bytes.length) : t.Editable where
  within := by
    rw [stored.window]
    exact editable.within.mono stored.length_le
  addressable start stop window :=
    editable.addressable start stop (stored.window.symm.trans window)
  whole := by
    rw [stored.admits]
    rcases stored.length_eq with longer | ⟨-, same⟩
    · rcases Nat.le_total (s.absolute + bytes.length) s.source.length with inside | beyond
      · exact editable.whole.mono (by omega)
      · exact room.2.mono (by omega)
    · exact same ▸ editable.whole

/-- Back at the position of the write, what was written can be read. -/
theorem held_there (stored : s.Stored bytes t) (editable : s.Editable)
    (room : s.RoomFor bytes.length) : (t.seek s.position).Held := by
  have after := (stored.editable editable room).seek s.position
  have here : (t.seek s.position).RoomFor 0 := by
    have window : (t.seek s.position).window = s.window := stored.window
    obtain ⟨fits, admits⟩ := room.mono (Nat.zero_le bytes.length)
    constructor
    · rwa [Fits, window]
    · apply (stored.admits _).mpr
      rwa [Stream.absolute, window]
  exact after.held here

end Stored

/-! ### Writers -/

/-- The step writes these bytes, wherever there is room for them. -/
structure Writes (step : StreamM Unit) (bytes : List UInt8) : Prop where
  stored : ∀ {s t : Stream}, step s = .ok () t → s.Stored bytes t
  done : ∀ {s : Stream}, s.Editable → s.RoomFor bytes.length → ∃ t, step s = .ok () t

theorem writes_writeBytes (bytes : List UInt8) : Writes (writeBytes bytes) bytes where
  stored written := by
    obtain ⟨placed, cursor⟩ := of_writeBytes written
    exact ⟨⟨cursor, (Source.of_writeAt placed).1⟩, Source.admits_iff_of_writeAt placed⟩
  done {s} editable room := by
    obtain ⟨source, placed⟩ := Source.writeAt_of_admits room.2
    have inside : ¬s.crosses bytes.length = true := fun crosses =>
      (crosses_iff_of_addressable editable.within editable.addressable _).mp crosses room.1
    rw [writeBytes_eq, if_neg inside, placed]
    exact ⟨_, rfl⟩

theorem writes_writeNat (order : ByteOrder) {width n : Nat} (fits : n < 256 ^ width) :
    Writes (writeNat order width n) (order.write width n) := by
  rw [writeNat, if_pos fits]
  exact writes_writeBytes _

theorem Writes.seq {first second : StreamM Unit} (hfirst : Writes first front)
    (hsecond : Writes second back) : Writes (first >>= fun _ => second) (front ++ back) where
  stored written := by
    obtain ⟨_, t, earlier, later⟩ := bind_eq_ok_iff.mp written
    exact (hfirst.stored earlier).trans (hsecond.stored later)
  done {s} editable room := by
    rw [List.length_append] at room
    have before := room.mono (Nat.le_add_right front.length back.length)
    obtain ⟨t, earlier⟩ := hfirst.done editable before
    have stored := hfirst.stored earlier
    obtain ⟨u, later⟩ := hsecond.done (stored.editable editable before)
      ((stored.roomFor_iff back.length).mpr room)
    exact ⟨u, (bind_of_ok earlier).trans later⟩

end Stream

end PackageAssets
