import PackageAssets.Proofs.Stream.Ahead
import PackageAssets.Proofs.Stream.InStep

/-!
# A file and a copy of it in memory

A disk refuses positions that are too far away, but none up to the end of a file
that is on it. A reader that stays inside the file reads what it would read in a
copy of the file in memory, and fails when it would fail there.
-/
namespace PackageAssets.Stream

/-- `t` shows in memory what `s` shows of a file, and both stand at a place inside the file. -/
structure Copied (s t : Stream) : Prop where
  onDisk : ∃ writable furthest, s.source.storage = .file writable furthest ∧
    s.source.length ≤ furthest
  copy : t.Sound
  content : t.source.content = s.source.content
  cursor : t.cursor = s.cursor
  inside : s.absolute ≤ s.source.length

/-- Any failure may occur, on both sides. -/
def Anything {ε : Type} (_ : ε) : Prop := True

/-- A step that yields the same on a file and on its copy. -/
abbrev Follows {α : Type} (step : StreamM α) (s t : Stream) : Prop :=
  InStep Anything Copied (Equally Copied) (step s) (step t)

namespace Copied

variable {s t : Stream} (copied : Copied s t)

include copied

theorem position_eq : t.position = s.position := congrArg Cursor.position copied.cursor

theorem window_eq : t.window = s.window := congrArg Cursor.window copied.cursor

theorem source_length_eq : t.source.length = s.source.length :=
  congrArg List.length copied.content

theorem length_eq : t.length = s.length := by
  rw [length, length, copied.window_eq, copied.source_length_eq]

theorem remaining_eq : t.remaining = s.remaining := by
  rw [remaining, remaining, copied.length_eq, copied.position_eq]

theorem within : s.window.Within s.source.length := by
  have within := copied.copy.within
  rwa [copied.window_eq, copied.source_length_eq] at within

/-- The same move on both sides, to a place inside the file. -/
theorem seek {position : Nat} (inside : s.window.base + position ≤ s.source.length) :
    Copied (s.seek position) (t.seek position) where
  onDisk := copied.onDisk
  copy := copied.copy.seek position
  content := copied.content
  cursor := congrArg (fun c : Cursor => (⟨c.window, position, c.pending⟩ : Cursor)) copied.cursor
  inside := inside

theorem part {start stop : Nat} (ordered : start ≤ stop) (inside : stop ≤ s.length) :
    Copied (s.part start stop) (t.part start stop) where
  onDisk := copied.onDisk
  copy := sound_part copied.copy ordered (copied.length_eq ▸ inside)
  content := copied.content
  cursor := by
    change Cursor.start _ = Cursor.start _
    rw [copied.window_eq]
  inside := by
    have room := base_add_length_le_of_within copied.within
    change s.window.base + start + 0 ≤ s.source.length
    omega

theorem exists_read (count : Nat) : ∃ bytes position,
    Stream.readBytes count s = .ok bytes (s.seek position) ∧
      Stream.readBytes count t = .ok bytes (t.seek position) ∧
      s.window.base + position ≤ s.source.length := by
  obtain ⟨writable, furthest, stored, onDisk⟩ := copied.onDisk
  obtain ⟨room, inMemory⟩ := copied.copy.inMemory
  have reached := copied.inside
  have near : ¬furthest < s.absolute := by omega
  have limit : t.allowance count = s.allowance count := by
    rw [allowance, allowance, copied.window_eq, copied.position_eq]
  have place : t.absolute = s.absolute := by
    rw [absolute, absolute, copied.window_eq, copied.position_eq]
  unfold Stream.readBytes
  rw [limit, place, copied.position_eq]
  dsimp only
  by_cases nothing : s.allowance count = 0
  · rw [if_pos nothing, if_pos nothing]
    refine ⟨[], s.position, rfl, ?_, reached⟩
    rw [← copied.position_eq, seek_self]
  · simp only [nothing, if_false, Source.readAt, stored, inMemory, near, copied.content]
    refine ⟨_, _, rfl, rfl, ?_⟩
    have most : (Source.bytesAt s.source.content s.absolute (s.allowance count)).length ≤
        s.source.length - s.absolute := by
      rw [Source.bytesAt, List.length_take, List.length_drop, Source.length]
      exact Nat.min_le_right _ _
    rw [← Nat.add_assoc]
    change s.absolute + _ ≤ _
    omega

theorem readBytes (count : Nat) : Follows (Stream.readBytes count) s t := by
  obtain ⟨bytes, position, left, right, inside⟩ := copied.exists_read count
  unfold Follows
  rw [left, right]
  exact .ok ⟨rfl, copied.seek inside⟩

theorem readExact (count : Nat) : Follows (Stream.readExact count) s t := by
  obtain ⟨bytes, position, left, right, inside⟩ := copied.exists_read count
  unfold Follows Stream.readExact
  rw [left, right]
  dsimp only
  split
  · exact .ok ⟨rfl, copied.seek inside⟩
  · rw [seek_seek, seek_seek, copied.position_eq]
    exact .error trivial (copied.seek copied.inside)

theorem readNat (order : ByteOrder) (width : Nat) :
    Follows (Stream.readNat order width) s t :=
  (copied.readExact width).next fun _ _ _ copied => .pure copied _

theorem readRemaining : Follows Stream.readRemaining s t := by
  unfold Follows Stream.readRemaining
  rw [copied.remaining_eq]
  exact copied.readBytes s.remaining

theorem readStream (count : Nat) :
    InStep Anything Copied (fun v w s t => Copied v w ∧ Copied s t) (Stream.readStream count s)
      (Stream.readStream count t) := by
  unfold Stream.readStream
  rw [copied.remaining_eq]
  split
  · exact .error trivial copied
  case isFalse enough =>
    rw [copied.position_eq, slice_eq, slice_eq, copied.length_eq]
    dsimp only [resolve]
    by_cases outside : s.position + count < s.position ∨ s.length < s.position + count
    · rw [if_pos outside, if_pos outside]
      exact .error trivial copied
    · have room := base_add_length_le_of_within copied.within
      have clamped : Count.clamp (s.position + count) ≤ s.position + count := Nat.min_le_left _ _
      rw [if_neg outside, if_neg outside]
      exact .ok ⟨copied.part (Nat.le_add_right _ _) (by omega), copied.seek (by omega)⟩

end Copied

/-- What is made of a whole file. -/
theorem copied_ofFile {bytes : List UInt8} {furthest : Nat} (writable : Bool)
    (onDisk : bytes.length ≤ furthest) (counted : bytes.length < Count.bound) :
    Copied (onSource (.ofFile bytes writable furthest)) (ofBytes bytes) where
  onDisk := ⟨writable, _, rfl, onDisk⟩
  copy := sound_ofBytes counted
  content := rfl
  cursor := rfl
  inside := Nat.zero_le _

theorem Copied.whole {s t : Stream} (copied : Copied s t) :
    Copied (s.part 0 s.length) (t.part 0 t.length) := by
  rw [copied.length_eq]
  exact copied.part (Nat.zero_le _) (Nat.le_refl _)

end PackageAssets.Stream
