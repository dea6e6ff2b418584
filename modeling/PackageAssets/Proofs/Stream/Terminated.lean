import PackageAssets.Proofs.Stream.Ahead

/-!
# Terminated text

Text is read in blocks, and what was read behind the terminator is given back.
The blocks do not show: the text is that of the bytes ahead up to the first
zero, and the position moves past that zero, or to the end of the window.
-/
namespace PackageAssets.Stream

theorem untilZero_split (front rest : List UInt8) :
    Text.untilZero (front ++ rest) =
      if (Text.untilZero front).length = front.length then front ++ Text.untilZero rest
      else Text.untilZero front := by
  unfold Text.untilZero
  rw [List.takeWhile_append]

theorem length_untilZero_le (bytes : List UInt8) :
    (Text.untilZero bytes).length ≤ bytes.length := (List.takeWhile_prefix _).length_le

/-- How far the position moves over terminated text: past the zero, if there is one. -/
def terminatedLength (bytes : List UInt8) : Nat :=
  min ((Text.untilZero bytes).length + 1) bytes.length

theorem terminatedLength_split (front rest : List UInt8) :
    terminatedLength (front ++ rest) =
      if (Text.untilZero front).length = front.length then front.length + terminatedLength rest
      else (Text.untilZero front).length + 1 := by
  have := length_untilZero_le front
  unfold terminatedLength
  rw [untilZero_split, List.length_append]
  split
  · rw [List.length_append]
    omega
  · omega

theorem readUntilZero_eq {s : Stream} (h : s.Sound) {rounds : Nat}
    (enough : s.ahead.length < rounds) (found : List UInt8) :
    readUntilZero rounds found s =
      .ok (found ++ Text.untilZero s.ahead) (s.seek (s.position + terminatedLength s.ahead)) := by
  induction rounds generalizing s found with
  | zero => omega
  | succ rounds ih =>
    obtain ⟨block, later, hblock, known⟩ : ∃ block later,
        s.ahead.take textBlock = block ∧ s.ahead = block ++ later :=
      ⟨_, _, rfl, (List.take_append_drop textBlock s.ahead).symm⟩
    have moved : min textBlock s.ahead.length = block.length := by
      rw [← hblock, List.length_take]
    have hread := readBytes_eq h textBlock
    have hle := length_untilZero_le block
    rw [hblock, moved] at hread
    rw [readUntilZero, bind_of_ok hread]
    by_cases empty : block = []
    · have nothing : s.ahead = [] :=
        (List.take_eq_nil_iff.mp (hblock.trans empty)).resolve_left (by decide)
      rw [if_pos empty, empty, nothing]
      simp [Text.untilZero, terminatedLength]
    rw [if_neg empty, known, untilZero_split, terminatedLength_split]
    by_cases zero : (Text.untilZero block).length < block.length
    · have back : s.position + block.length -
          (block.length - (Text.untilZero block).length - 1) =
          s.position + ((Text.untilZero block).length + 1) := by omega
      have hrewind : rewind (block.length - (Text.untilZero block).length - 1)
          (s.seek (s.position + block.length)) =
          .ok () (s.seek (s.position + ((Text.untilZero block).length + 1))) := by
        rw [rewind, seek_position, if_pos (by omega), back, seek_seek]
      rw [if_pos zero, if_neg (by omega), if_neg (by omega), bind_of_ok hrewind]
      rfl
    · have full : (Text.untilZero block).length = block.length := by omega
      have hlater : (s.seek (s.position + block.length)).ahead = later := ahead_seek_append known
      have fewer : later.length < rounds := by
        have : 0 < block.length := List.length_pos_iff.mpr empty
        rw [known, List.length_append] at enough
        omega
      rw [if_neg zero, if_pos full, if_pos full, ih (h.seek _) (hlater ▸ fewer), hlater,
        seek_position, seek_seek, List.append_assoc, Nat.add_assoc]

theorem readText_eq {s : Stream} (h : s.Sound) :
    readText s = .ok (Text.ofBytes (Text.untilZero s.ahead))
      (s.seek (s.position + terminatedLength s.ahead)) := by
  have hread := readUntilZero_eq h (length_ahead_lt h) []
  rw [List.nil_append] at hread
  exact bind_of_ok hread

end PackageAssets.Stream
