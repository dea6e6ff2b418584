import PackageAssets.Proofs.Stream.Emits

/-!
# Seeing what was written

Cursors over one source see what is written through any of them. Bytes that were
put at a position are read from there, and a cursor whose bytes lie elsewhere still
has the same bytes left, unless it is on a root window and the source has grown.
-/
namespace PackageAssets.Stream

variable {s t u g : Stream} {bytes : List UInt8}

/-- The same cursor over another source. -/
def withSource (g : Stream) (source : Source) : Stream := ⟨source, g.cursor⟩

theorem getElem?_ahead (sound : s.Sound) (i : Nat) :
    s.ahead[i]? = if i < s.remaining then s.source.content[s.absolute + i]? else none := by
  have size := length_ahead sound
  split
  case isTrue inside =>
    unfold ahead visible absolute
    rw [remaining, length] at inside
    cases window : s.window with
    | root => simp only [Window.base, List.getElem?_drop, Nat.zero_add]
    | slice start stop =>
      rw [window] at inside
      dsimp only at inside
      simp only [Window.base, Source.bytesAt, List.getElem?_drop]
      rw [List.getElem?_take_of_lt (by omega), List.getElem?_drop, Nat.add_assoc]
  case isFalse outside => exact List.getElem?_eq_none (by omega)

/-- The source that a writer leaves is one that another stream on it can go on with. -/
theorem Put.sound (put : t.Put bytes u) (sound : g.Sound) (same : g.source = t.source) :
    (g.withSource u.source).Sound where
  inMemory := put.inMemory
  counted := by
    have counted := sound.counted
    rw [same] at counted
    change u.source.length < Count.bound
    rcases put.content with ⟨-, inBound, written⟩ | ⟨-, unchanged⟩
    · rw [Source.length, written, Source.length_overwrite]
      exact Nat.max_lt.mpr ⟨Nat.lt_of_le_of_lt inBound (by decide), counted⟩
    · rwa [Source.length, unchanged]
  within := by
    have within := sound.within
    rw [same] at within
    exact within.mono put.length_le

/-! ### Where bytes were put -/

/-- Bytes that were put at a position are ahead of it. -/
theorem Put.ahead_there (put : t.Put bytes u) (sound : u.Sound) :
    ∃ rest, (u.seek t.position).ahead = bytes ++ rest := by
  rcases put.fits with rfl | fits
  · exact ⟨_, rfl⟩
  · apply put.wrote.ahead_there fits
    intro start stop window
    exact sound.stop_lt_bound (put.window.trans window)

/-- What a writer leaves can be read. -/
theorem Put.sound_self (put : t.Put bytes u) (sound : t.Sound) : u.Sound := by
  have after := put.sound sound rfl
  exact ⟨after.inMemory, after.counted, put.window ▸ after.within⟩

/-! ### Places that lie apart -/

/-- Writing `count` bytes at the position of `t` does not change what `g` has left of the same
source: the places lie apart, and the end of `g` does not move. -/
structure Apart (t g : Stream) (count : Nat) : Prop where
  disjoint : t.absolute + count ≤ g.absolute ∨ g.absolute + g.remaining ≤ t.absolute
  fixed : t.window = .root → t.source.length < t.absolute + count → g.window ≠ .root

theorem Apart.mono {few many : Nat} (apart : t.Apart g many) (fewer : few ≤ many) :
    t.Apart g few where
  disjoint := apart.disjoint.imp_left (Nat.le_trans (Nat.add_le_add_left fewer _))
  fixed root grows :=
    apart.fixed root (Nat.lt_of_lt_of_le grows (Nat.add_le_add_left fewer _))

/-- A source does not grow under a slice, nor under a write that ends inside it. -/
theorem Put.length_eq_of_fixed (put : t.Put bytes u) (sink : t.Sink)
    (fixed : t.window = .root → t.absolute + bytes.length ≤ t.source.length) :
    u.source.length = t.source.length := by
  cases window : t.window with
  | slice start stop => exact put.length_eq sink window
  | root =>
    rcases put.content with ⟨-, -, written⟩ | ⟨-, unchanged⟩
    · rw [Source.length, written, Source.length_overwrite]
      exact Nat.max_eq_right (fixed window)
    · exact congrArg List.length unchanged

/-- Bytes put apart from what is left in another window are not seen there. -/
theorem Put.ahead_apart (put : t.Put bytes u) (sink : t.Sink) (sound : g.Sound)
    (same : g.source = t.source) (apart : t.Apart g bytes.length) :
    (g.withSource u.source).ahead = g.ahead := by
  have left : (g.withSource u.source).remaining = g.remaining := by
    have still : (g.withSource u.source).window = g.window := rfl
    refine congrArg (· - g.position) ?_
    unfold length
    rw [still]
    cases window : g.window with
    | slice start stop => rfl
    | root =>
      have fixed (root : t.window = .root) : t.absolute + bytes.length ≤ t.source.length :=
        Nat.le_of_not_lt fun grows => apart.fixed root grows window
      exact (put.length_eq_of_fixed sink fixed).trans (congrArg Source.length same.symm)
  refine List.ext_getElem? fun i => ?_
  rw [getElem?_ahead (put.sound sound same), getElem?_ahead sound, left]
  split
  case isTrue inside =>
    have place : g.absolute = g.window.base + g.position := rfl
    have held := base_add_length_le sound
    have apart := apart.disjoint
    rw [remaining] at inside apart
    rw [same] at held ⊢
    exact put.overwritten.others (g.absolute + i) (by omega) (by omega)
  case isFalse => rfl

end PackageAssets.Stream
