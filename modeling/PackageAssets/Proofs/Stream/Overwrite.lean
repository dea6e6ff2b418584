import PackageAssets.Stream.Source

/-!
# What a write changes

Bytes put at a position are there afterwards, a gap before them holds zeros, and
everything else is as it was. Read with zeros behind its end, content changes
only where the bytes were put.
-/
namespace PackageAssets.Source

variable (content : List UInt8) (position : Nat) (bytes : List UInt8)

/-- The bytes before a write, with any gap filled. -/
def front (content : List UInt8) (position : Nat) : List UInt8 :=
  (content.take position).rightpad position 0

theorem overwrite_eq :
    overwrite content position bytes =
      front content position ++ (bytes ++ content.drop (position + bytes.length)) :=
  List.append_assoc ..

@[simp] theorem length_front : (front content position).length = position := by
  simp only [front, List.rightpad, List.length_append, List.length_take, List.length_replicate]
  omega

theorem length_overwrite :
    (overwrite content position bytes).length = max (position + bytes.length) content.length := by
  rw [overwrite_eq, List.length_append, List.length_append, length_front, List.length_drop]
  omega

theorem getElem?_front {i : Nat} (inside : i < position) :
    (front content position)[i]? = if i < content.length then content[i]? else some 0 := by
  have size : (content.take position).length = min position content.length := List.length_take
  unfold front List.rightpad
  by_cases there : i < content.length
  · rw [if_pos there, List.getElem?_append_left (by omega), List.getElem?_take_of_lt inside]
  · rw [if_neg there, List.getElem?_append_right (by omega), List.getElem?_replicate,
      if_pos (by omega)]

theorem getElem?_overwrite_of_lt {i : Nat} (inside : i < position) :
    (overwrite content position bytes)[i]? =
      if i < content.length then content[i]? else some 0 := by
  rw [overwrite_eq, List.getElem?_append_left (by rwa [length_front]), getElem?_front _ _ inside]

theorem getElem?_overwrite_add (i : Nat) :
    (overwrite content position bytes)[position + i]? =
      if i < bytes.length then bytes[i]? else content[position + i]? := by
  rw [overwrite_eq, List.getElem?_append_right (by simp), length_front, Nat.add_sub_cancel_left]
  by_cases inside : i < bytes.length
  · rw [if_pos inside, List.getElem?_append_left inside]
  · rw [if_neg inside, List.getElem?_append_right (by omega), List.getElem?_drop]
    congr 1
    omega

/-- A write inside the content leaves all other bytes alone. -/
theorem getElem?_overwrite_outside (fits : position + bytes.length ≤ content.length) {i : Nat}
    (outside : i < position ∨ position + bytes.length ≤ i) :
    (overwrite content position bytes)[i]? = content[i]? := by
  rcases Nat.lt_or_ge i position with before | behind
  · rw [getElem?_overwrite_of_lt _ _ _ before, if_pos (by omega)]
  · obtain ⟨k, rfl⟩ := Nat.exists_eq_add_of_le behind
    rw [getElem?_overwrite_add, if_neg (by omega)]

theorem overwrite_beyond (far : content.length ≤ position) :
    overwrite content position bytes =
      content ++ (List.replicate (position - content.length) 0 ++ bytes) := by
  have behind : content.drop (position + bytes.length) = [] := List.drop_of_length_le (by omega)
  rw [overwrite_eq, behind, front, List.take_of_length_le far, List.rightpad, List.append_nil,
    List.append_assoc]

/-- Two writes, the second one behind the first, are one. -/
theorem overwrite_overwrite (more : List UInt8) :
    overwrite (overwrite content position bytes) (position + bytes.length) more =
      overwrite content position (bytes ++ more) := by
  have size : (front content position ++ bytes).length = position + bytes.length := by simp
  have written : overwrite content position bytes =
      (front content position ++ bytes) ++ content.drop (position + bytes.length) := by
    rw [overwrite_eq, List.append_assoc]
  have first : front (overwrite content position bytes) (position + bytes.length) =
      front content position ++ bytes := by
    rw [front, written, List.take_left' size, List.rightpad, size, Nat.sub_self,
      List.replicate_zero, List.append_nil]
  have last : (overwrite content position bytes).drop (position + bytes.length + more.length) =
      content.drop (position + (bytes ++ more).length) := by
    rw [written, ← List.drop_drop, List.drop_left' size, List.drop_drop, List.length_append,
      Nat.add_assoc]
  rw [overwrite_eq, overwrite_eq content position (bytes ++ more), first, last, List.append_assoc,
    List.append_assoc]

/-- Reading is reading some bytes and then those behind them. -/
theorem bytesAt_add (count more : Nat) :
    bytesAt content position (count + more) =
      bytesAt content position count ++ bytesAt content (position + count) more := by
  rw [bytesAt, bytesAt, bytesAt, List.take_add, List.drop_drop]

/-- What was read is what is read when no more is asked for. -/
theorem bytesAt_length (count : Nat) :
    bytesAt content position (bytesAt content position count).length =
      bytesAt content position count := by
  rw [bytesAt, bytesAt, List.take_eq_take_iff, List.length_take, Nat.min_assoc, Nat.min_self]

end PackageAssets.Source
