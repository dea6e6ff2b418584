import PackageAssets.Proofs.Stream.Twins

/-!
# Reading without a copy

A copy of the next bytes and a view of them pass different checks: the copy is
what the window lets through, the view is a range of the window. They agree, in
success and in failure, wherever a view can start. It can start at the end of the
window but not behind it, where a copy of no bytes is still made.
-/
namespace PackageAssets.Stream

variable {s : Stream}

/-- A view on the source of `s`, at its start, from which exactly these bytes are read. -/
structure ViewOf (s : Stream) (bytes : List UInt8) (view : Stream) : Prop where
  source : view.source = s.source
  atStart : view.position = 0
  noBits : view.cursor.pending = .none
  size : view.length = bytes.length
  reads : readRemaining view = .ok bytes (view.seek bytes.length)

/-- A copy and a view of the next `count` bytes: both are made and both move past the bytes, or
there are too few and both say so. -/
inductive Alike (s : Stream) (count : Nat) :
    EStateM.Result IoError Stream (List UInt8) → EStateM.Result IoError Stream Stream → Prop where
  | made {bytes : List UInt8} {view : Stream} (size : bytes.length = count)
      (shows : s.ViewOf bytes view) :
      Alike s count (.ok bytes (s.seek (s.position + count)))
        (.ok view (s.seek (s.position + count)))
  | short (found : Nat) (fewer : found < count) :
      Alike s count (.error (.notEnough count found) s) (.error (.notEnough count found) s)

theorem viewOf_part (sound : s.Sound) {start stop : Nat} (ordered : start ≤ stop)
    (inside : stop ≤ s.length) :
    s.ViewOf ((s.visible.drop start).take (stop - start)) (s.part start stop) := by
  have whole := sound_part sound ordered inside
  have ahead := ahead_part start inside
  have size := length_ahead whole
  have read := readRemaining_eq whole
  have atStart : (s.part start stop).position = 0 := rfl
  rw [ahead, atStart, Nat.zero_add] at read
  rw [ahead, remaining, atStart, Nat.sub_zero] at size
  exact ⟨rfl, rfl, rfl, size.symm, read⟩

theorem readStream_alike (sound : s.Sound) {count : Nat}
    (startable : 0 < count ∨ s.position ≤ s.length) :
    s.Alike count (readExact count s) (readStream count s) := by
  have size := length_ahead sound
  rw [readExact_eq sound]
  by_cases enough : count ≤ s.ahead.length
  · have inside : s.position + count ≤ s.length := by
      rcases startable with some | before
      · exact position_add_le_length sound some enough
      · rw [size, remaining] at enough
        omega
    have shows := viewOf_part sound (Nat.le_add_right s.position count) inside
    rw [Nat.add_sub_cancel_left] at shows
    rw [if_pos enough, readStream_eq sound inside]
    exact .made (List.length_take_of_le enough) shows
  · rw [if_neg enough, size, readStream_short (by omega)]
    exact .short _ (by omega)

theorem viewOf_rest (sound : s.Sound) (before : s.position ≤ s.length) :
    ∃ view, s.sliceRemaining = .ok view ∧ s.ViewOf s.ahead view := by
  have shows := viewOf_part sound before (Nat.le_refl _)
  have all : (s.visible.drop s.position).length = s.length - s.position := by
    rw [List.length_drop, length_visible sound]
  rw [← all, List.take_length] at shows
  exact ⟨_, slice_from before, shows⟩

theorem sliceRemaining_behind (behind : s.length < s.position) :
    s.sliceRemaining = .error (.outOfBounds s.position s.length s.length) := by
  rw [sliceRemaining, slice_eq]
  exact if_pos (.inl behind)

/--
A view of the next bytes and a copy of them agree, but for a view of nothing behind the end of the
window. What is left is always copied, and it can be viewed exactly from a position that is not
behind the end; the view then shows what is copied.
-/
theorem views_agree_with_copies (sound : s.Sound) :
    (∀ count, 0 < count ∨ s.position ≤ s.length →
      s.Alike count (readExact count s) (readStream count s)) ∧
    ∃ bytes, readRemaining s = .ok bytes (s.seek (s.position + bytes.length)) ∧
      (s.position ≤ s.length → ∃ view, s.sliceRemaining = .ok view ∧ s.ViewOf bytes view) ∧
      (s.length < s.position →
        s.sliceRemaining = .error (.outOfBounds s.position s.length s.length)) := by
  refine ⟨fun count => readStream_alike sound, s.ahead, readRemaining_eq sound, ?_, ?_⟩
  · exact viewOf_rest sound
  · exact sliceRemaining_behind

/-- The second and the third of four bytes, with the position at the third one. -/
def thirdOfFour : Stream := ⟨.ofBytes [1, 2, 3, 4], ⟨.slice 1 3, 1, .none⟩⟩

theorem sound_thirdOfFour : thirdOfFour.Sound := ⟨⟨4, rfl⟩, by decide, by decide⟩

theorem views_agree_with_copies_thirdOfFour :
    thirdOfFour.Alike 1 (readExact 1 thirdOfFour) (readStream 1 thirdOfFour) ∧
      thirdOfFour.Alike 2 (readExact 2 thirdOfFour) (readStream 2 thirdOfFour) ∧
      ∃ view, thirdOfFour.sliceRemaining = .ok view ∧ thirdOfFour.ViewOf [3] view := by
  obtain ⟨next, bytes, copied, rest, -⟩ := views_agree_with_copies sound_thirdOfFour
  obtain ⟨view, made, shows⟩ := rest (by decide)
  cases copied
  exact ⟨next 1 (.inl (by decide)), next 2 (.inl (by decide)), view, made, shows⟩

/-- Behind the end of the window nothing is copied, and no view of nothing is made. -/
theorem thirdOfFour_no_view_behind :
    readExact 0 (thirdOfFour.seek 3) = .ok [] (thirdOfFour.seek 3) ∧
      readStream 0 (thirdOfFour.seek 3) = .error (.outOfBounds 3 3 2) (thirdOfFour.seek 3) ∧
      readRemaining (thirdOfFour.seek 3) = .ok [] (thirdOfFour.seek 3) ∧
      (thirdOfFour.seek 3).sliceRemaining = .error (.outOfBounds 3 2 2) :=
  ⟨rfl, rfl, rfl, rfl⟩

end PackageAssets.Stream
