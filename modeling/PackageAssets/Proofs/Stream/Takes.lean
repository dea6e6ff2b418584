import PackageAssets.Proofs.Stream.Ahead

/-!
# Fields of fixed width

Numbers read one after another take their widths off what is ahead. Such a
reading is known by how many bytes it takes and what it makes of them. With
fewer bytes ahead it fails for want of bytes; how, and how far it gets, depends
on these bytes alone.
-/
namespace PackageAssets.Stream

variable {α β : Type}

/-- The step takes `width` bytes and makes something of them, or there are too few. -/
structure Takes (step : StreamM α) (width : Nat) (made : List UInt8 → α) : Prop where
  enough : ∀ {s : Stream}, s.Sound → width ≤ s.ahead.length →
    step s = .ok (made (s.ahead.take width)) (s.seek (s.position + width))
  short : ∀ {bytes : List UInt8}, bytes.length < width → ∃ expected found moved,
    ∀ {s : Stream}, s.Sound → s.ahead = bytes →
      step s = .error (.notEnough expected found) (s.seek (s.position + moved))

theorem takes_pure (a : α) : Takes (pure a) 0 fun _ => a where
  enough _ _ := rfl
  short none := absurd none (Nat.not_lt_zero _)

theorem takes_readExact (count : Nat) : Takes (readExact count) count id where
  enough h enough := (readExact_eq h count).trans (if_pos enough)
  short {bytes} few := by
    refine ⟨count, bytes.length, 0, ?_⟩
    intro s h known
    have read := readExact_eq h count
    rw [known, if_neg (Nat.not_le.mpr few)] at read
    exact read

theorem Takes.bind {step : StreamM α} {next : α → StreamM β} {width more : Nat}
    {made : List UInt8 → α} {madeOf : α → List UInt8 → β} (first : Takes step width made)
    (later : ∀ a, Takes (next a) more (madeOf a)) :
    Takes (step >>= next) (width + more) fun bytes =>
      madeOf (made (bytes.take width)) (bytes.drop width) where
  enough {s} h enough := by
    have read := first.enough h (by omega)
    have rest := (later (made (s.ahead.take width))).enough (h.seek (s.position + width)) (by
      rw [ahead_seek_add, List.length_drop]
      omega)
    rw [ahead_seek_add, seek_position, seek_seek, Nat.add_assoc] at rest
    rw [List.take_take, Nat.min_eq_left (Nat.le_add_right _ _), List.drop_take,
      Nat.add_sub_cancel_left]
    exact (bind_of_ok read).trans rest
  short {bytes} few := by
    by_cases none : bytes.length < width
    · obtain ⟨expected, found, moved, fails⟩ := first.short none
      refine ⟨expected, found, moved, ?_⟩
      intro s h known
      exact bind_of_error (fails h known)
    · have less : (bytes.drop width).length < more := by
        rw [List.length_drop]
        omega
      obtain ⟨expected, found, moved, fails⟩ := (later (made (bytes.take width))).short less
      refine ⟨expected, found, width + moved, ?_⟩
      intro s h known
      have read := first.enough h (by
        rw [known]
        omega)
      rw [known] at read
      have rest := fails (h.seek (s.position + width)) (by rw [ahead_seek_add, known])
      rw [seek_position, seek_seek, Nat.add_assoc] at rest
      exact (bind_of_ok read).trans rest

/-- What is made matters only for bytes of the width. -/
theorem Takes.congr {step : StreamM α} {width : Nat} {made other : List UInt8 → α}
    (takes : Takes step width made)
    (same : ∀ bytes, bytes.length = width → made bytes = other bytes) :
    Takes step width other where
  enough {s} h enough := by
    rw [takes.enough h enough, same _ (List.length_take_of_le enough)]
  short := takes.short

theorem takes_readNat (order : ByteOrder) (width : Nat) :
    Takes (readNat order width) width order.read :=
  ((takes_readExact width).bind fun bytes => takes_pure (order.read bytes)).congr fun _ size =>
    congrArg order.read (List.take_of_length_le (Nat.le_of_eq size))

theorem takes_readInt (format : IntFormat) : Takes (readInt format) format.width format.decode :=
  ((takes_readExact format.width).bind fun bytes => takes_pure (format.decode bytes)).congr
    fun _ size => congrArg format.decode (List.take_of_length_le (Nat.le_of_eq size))

end PackageAssets.Stream
