import PackageAssets.Proofs.Stream.Emits

/-!
# Room for what is written

A single write is done just if there is room for all of its bytes. A terminated
text and a padding are written in several parts, and each part looks for room on
its own. So where a window ends between two parts, the earlier ones are written
and stay, and the failure is reported behind them.
-/
namespace PackageAssets.Stream

/-- That many bytes can be written at the position. -/
def Room (s : Stream) (count : Nat) : Prop :=
  s.Fits count ∧ s.absolute + count ≤ Source.longestVector

variable {s t : Stream} {bytes : List UInt8}

theorem Put.room_iff (put : s.Put bytes t) (count : Nat) :
    t.Room count ↔ s.Room (bytes.length + count) := by
  rw [Room, Room, put.fits_iff, put.absolute, Nat.add_assoc]

/-! ### One write -/

theorem writeBytes_of_room (sink : s.Sink) (room : s.Room bytes.length) :
    ∃ t, writeBytes bytes s = .ok () t ∧ s.Put bytes t := by
  obtain ⟨capacity, inMemory⟩ := sink.inMemory
  refine ⟨⟨⟨Source.overwrite s.source.content s.absolute bytes,
    .memory (Source.grown capacity (s.absolute + bytes.length))⟩,
    (s.seek (s.position + bytes.length)).cursor⟩, ?_, rfl, ⟨_, rfl⟩, .inl ⟨room.1, room.2, rfl⟩⟩
  rw [writeBytes_eq, if_neg fun crosses => (crosses_iff sink _).mp crosses room.1,
    Source.writeAt_memory inMemory room.2]

theorem writeBytes_of_not_room (sink : s.Sink) (crowded : ¬s.Room bytes.length) :
    ∃ e, writeBytes bytes s = .error e s := by
  obtain ⟨capacity, inMemory⟩ := sink.inMemory
  rw [writeBytes_eq]
  by_cases fits : s.Fits bytes.length
  · have long := Nat.lt_of_not_le fun short => crowded ⟨fits, short⟩
    obtain ⟨e, refused, -⟩ := Source.writeAt_memory_long inMemory long
    rw [if_neg fun crosses => (crosses_iff sink _).mp crosses fits, refused]
    exact ⟨e, rfl⟩
  · rw [if_pos ((crosses_iff sink _).mpr fits)]
    exact ⟨_, rfl⟩

/-- A writer made of several writes is done if there is room for the bytes of all of them. -/
theorem Emits.of_room {step : StreamM Unit} (emits : Emits step bytes) (sink : s.Sink)
    (room : s.Room bytes.length) : ∃ t, step s = .ok () t ∧ s.Put bytes t := by
  have emitted := emits s sink
  cases result : step s with
  | ok a t =>
    rw [result] at emitted
    cases emitted with
    | whole put => exact ⟨t, rfl, put⟩
  | error e t =>
    rw [result] at emitted
    cases emitted with
    | cut _ crosses _ => exact absurd room.1 crosses
    | overflow _ large => exact absurd room.2 (Nat.not_le.mpr large)

/-- What a writer that was done has put. -/
theorem Emits.put_of_ok {step : StreamM Unit} (emits : Emits step bytes) (sink : s.Sink)
    (done : step s = .ok () t) : s.Put bytes t := by
  have emitted := emits s sink
  rw [done] at emitted
  cases emitted with
  | whole put => exact put

/-! ### Terminated text -/

theorem emits_writeText (text : String) : Emits (writeText text) (Text.utf8 text ++ [0]) :=
  (emits_writeBytes _).seq (emits_writeBytes _)

theorem writeText_of_room {text : String} (sink : s.Sink)
    (room : s.Room ((Text.utf8 text).length + 1)) :
    ∃ t, writeText text s = .ok () t ∧ s.Put (Text.utf8 text ++ [0]) t := by
  refine (emits_writeText text).of_room sink ?_
  rwa [List.length_append]

/-- The text is written before it is known whether there is room for the zero byte. -/
theorem writeText_of_room_for_text {text : String} (sink : s.Sink)
    (room : s.Room (Text.utf8 text).length) (crowded : ¬s.Room ((Text.utf8 text).length + 1)) :
    ∃ e t, writeText text s = .error e t ∧ s.Put (Text.utf8 text) t := by
  obtain ⟨t, written, put⟩ := writeBytes_of_room sink room
  have last : ¬t.Room [(0 : UInt8)].length := fun free => crowded ((put.room_iff 1).mp free)
  obtain ⟨e, failed⟩ := writeBytes_of_not_room (put.sink sink) last
  exact ⟨e, t, (bind_of_ok written).trans failed, put⟩

/-! ### Padding -/

/-- How many bytes lie between a position and the next multiple. -/
def padding (alignment position : Nat) : Nat :=
  (alignment - position % alignment) % alignment

section Padding

variable {alignment : Nat} (positive : 0 < alignment)

include positive

theorem padding_cases (position : Nat) :
    position % alignment = 0 ∧ padding alignment position = 0 ∨
      0 < position % alignment ∧ position % alignment + padding alignment position = alignment := by
  have small := Nat.mod_lt position positive
  unfold padding
  rcases Nat.eq_zero_or_pos (position % alignment) with none | some
  · left
    rw [none, Nat.sub_zero, Nat.mod_self]
    exact ⟨rfl, rfl⟩
  · right
    rw [Nat.mod_eq_of_lt (Nat.sub_lt positive some)]
    omega

theorem dvd_add_padding (position : Nat) : alignment ∣ position + padding alignment position := by
  have parts := Nat.div_add_mod position alignment
  rcases padding_cases positive position with ⟨aligned, none⟩ | ⟨-, rest⟩
  · rw [none]
    exact Nat.dvd_of_mod_eq_zero aligned
  · refine ⟨position / alignment + 1, ?_⟩
    rw [Nat.mul_succ]
    omega

/-- No multiple lies between the position and the end of the padding. -/
theorem add_padding_le {position multiple : Nat} (divides : alignment ∣ multiple)
    (behind : position ≤ multiple) : position + padding alignment position ≤ multiple := by
  have parts := Nat.div_add_mod position alignment
  rcases padding_cases positive position with ⟨-, none⟩ | ⟨some, rest⟩
  · rw [none]
    exact behind
  · obtain ⟨count, rfl⟩ := divides
    have more : position / alignment < count := by
      refine Nat.lt_of_mul_lt_mul_left (a := alignment) ?_
      omega
    have whole := Nat.mul_le_mul_left alignment (Nat.succ_le_of_lt more)
    rw [Nat.mul_succ] at whole
    omega

end Padding

/-! ### Bytes one by one -/

theorem emits_writeRepeated (b : UInt8) (count : Nat) :
    Emits (writeRepeated b count) (List.replicate count b) := by
  induction count with
  | zero => exact emits_pure
  | succ count ih => exact (emits_writeBytes [b]).seq ih

theorem writeRepeated_of_room {b : UInt8} {count : Nat} (sink : s.Sink) (room : s.Room count) :
    ∃ t, writeRepeated b count s = .ok () t ∧ s.Put (List.replicate count b) t := by
  refine (emits_writeRepeated b count).of_room sink ?_
  rwa [List.length_replicate]

/-- As many of the bytes are written as there is room for. -/
theorem writeRepeated_of_not_room {b : UInt8} {count : Nat} (sink : s.Sink) (some : 0 < count)
    (crowded : ¬s.Room count) :
    ∃ k < count, ¬s.Room (k + 1) ∧ (0 < k → s.Room k) ∧
      ∃ e t, writeRepeated b count s = .error e t ∧ s.Put (List.replicate k b) t ∧
        (k = 0 → t = s) := by
  induction count generalizing s with
  | zero => exact absurd some (Nat.lt_irrefl 0)
  | succ count ih =>
    by_cases one : s.Room [b].length
    · obtain ⟨t, written, put⟩ := writeBytes_of_room sink one
      have more : 0 < count := by
        rcases Nat.eq_zero_or_pos count with rfl | more
        · exact absurd one crowded
        · exact more
      have shift (k : Nat) : t.Room k ↔ s.Room (k + 1) := by
        rw [put.room_iff, List.length_singleton, Nat.add_comm]
      obtain ⟨k, inside, refused, room, e, u, failed, behind, -⟩ :=
        ih (put.sink sink) more (by rwa [shift])
      refine ⟨k + 1, Nat.succ_lt_succ inside, by rwa [← shift], fun _ => ?_, e, u,
        (bind_of_ok written).trans failed, put.trans behind, nofun⟩
      rcases Nat.eq_zero_or_pos k with rfl | positive
      · exact one
      · exact (shift k).mp (room positive)
    · obtain ⟨e, failed⟩ := writeBytes_of_not_room sink one
      exact ⟨0, Nat.zero_lt_succ _, one, nofun, e, s, bind_of_error failed, .refl sink,
        fun _ => rfl⟩

theorem writeToAlign_eq {alignment : Nat} (positive : 0 < alignment) (b : UInt8) (s : Stream) :
    writeToAlign alignment b s = writeRepeated b (padding alignment s.position) s := by
  rw [writeToAlign, if_neg (Nat.ne_of_gt positive)]
  rfl

/--
A terminated text is written whole if there is room for it and its zero byte. Without room for the
text nothing is written; with room for just the text it is written, and the failure is reported
behind it. A padding ends at the first multiple that is not before the position. It is written whole
if there is room for it, and otherwise as far as there is room.
-/
theorem writers_stop_without_room (sink : s.Sink) :
    (∀ text : String,
      (s.Room ((Text.utf8 text).length + 1) →
        ∃ t, writeText text s = .ok () t ∧ s.Put (Text.utf8 text ++ [0]) t) ∧
      (¬s.Room (Text.utf8 text).length → ∃ e, writeText text s = .error e s) ∧
      (s.Room (Text.utf8 text).length → ¬s.Room ((Text.utf8 text).length + 1) →
        ∃ e t, writeText text s = .error e t ∧ s.Put (Text.utf8 text) t)) ∧
    ∀ (alignment : Nat) (b : UInt8), 0 < alignment →
      let count := padding alignment s.position
      (alignment ∣ s.position + count ∧
        ∀ multiple, alignment ∣ multiple → s.position ≤ multiple → s.position + count ≤ multiple) ∧
      (count = 0 → writeToAlign alignment b s = .ok () s) ∧
      (s.Room count →
        ∃ t, writeToAlign alignment b s = .ok () t ∧ s.Put (List.replicate count b) t) ∧
      (0 < count → ¬s.Room count → ∃ k < count, ¬s.Room (k + 1) ∧ (0 < k → s.Room k) ∧
        ∃ e t, writeToAlign alignment b s = .error e t ∧ s.Put (List.replicate k b) t ∧
          (k = 0 → t = s)) := by
  constructor
  · intro text
    refine ⟨writeText_of_room sink, fun crowded => ?_, writeText_of_room_for_text sink⟩
    obtain ⟨e, failed⟩ := writeBytes_of_not_room sink crowded
    exact ⟨e, bind_of_error failed⟩
  · intro alignment b positive count
    rw [writeToAlign_eq positive]
    refine ⟨⟨dvd_add_padding positive _, fun _ => add_padding_le positive⟩, fun none => ?_,
      writeRepeated_of_room sink, writeRepeated_of_not_room sink⟩
    have nothing : padding alignment s.position = 0 := none
    rw [nothing]
    rfl

/-- A view of the second and the third of five bytes. -/
def twoOfFive : Stream := ⟨.ofBytes (List.replicate 5 0xAA), ⟨.slice 1 3, 0, .none⟩⟩

theorem sink_twoOfFive : twoOfFive.Sink where
  inMemory := ⟨5, rfl⟩
  within := by decide
  addressable := by
    rintro start stop ⟨⟩
    decide

theorem room_twoOfFive_iff (count : Nat) : twoOfFive.Room count ↔ count ≤ 2 := by
  change 0 + count ≤ 3 - 1 ∧ 1 + 0 + count ≤ 2 ^ 63 - 1 ↔ count ≤ 2
  omega

/-- There is room for a letter and its zero byte, and for two bytes of a padding. -/
theorem writers_stop_without_room_twoOfFive :
    (∃ t, writeText "h" twoOfFive = .ok () t ∧ twoOfFive.Put [0x68, 0] t) ∧
      (∃ e t, writeText "hi" twoOfFive = .error e t ∧ twoOfFive.Put [0x68, 0x69] t) ∧
      (∃ e, writeText "hid" twoOfFive = .error e twoOfFive) ∧
      ∃ t, writeToAlign 2 7 (twoOfFive.seek 1) = .ok () t ∧ (twoOfFive.seek 1).Put [7] t := by
  obtain ⟨text, -⟩ := writers_stop_without_room sink_twoOfFive
  obtain ⟨-, pad⟩ := writers_stop_without_room (s := twoOfFive.seek 1)
    ⟨sink_twoOfFive.inMemory, sink_twoOfFive.within, sink_twoOfFive.addressable⟩
  refine ⟨(text "h").1 ?_, (text "hi").2.2 ?_ ?_, (text "hid").2.1 ?_,
    (pad 2 7 (by decide)).2.2.1 ?_⟩
  · exact (room_twoOfFive_iff _).mpr (by decide)
  · exact (room_twoOfFive_iff _).mpr (by decide)
  · exact fun room => absurd ((room_twoOfFive_iff _).mp room) (by decide)
  · exact fun room => absurd ((room_twoOfFive_iff _).mp room) (by decide)
  · change 1 + 1 ≤ 3 - 1 ∧ 1 + 1 + 1 ≤ 2 ^ 63 - 1
    decide

/-- An unterminated text and half of a padding are left where a view ends. -/
theorem twoOfFive_partly_written :
    writeText "hi" twoOfFive = .error (.outOfBounds 2 3 2)
        ⟨⟨[0xAA, 0x68, 0x69, 0xAA, 0xAA], .memory 5⟩, ⟨.slice 1 3, 2, .none⟩⟩ ∧
      writeToAlign 4 0 (twoOfFive.seek 1) = .error (.outOfBounds 2 3 2)
        ⟨⟨[0xAA, 0xAA, 0, 0xAA, 0xAA], .memory 5⟩, ⟨.slice 1 3, 2, .none⟩⟩ :=
  ⟨rfl, rfl⟩

end PackageAssets.Stream
