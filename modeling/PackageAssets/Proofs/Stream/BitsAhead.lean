import PackageAssets.Proofs.Bytes.Stored
import PackageAssets.Proofs.Stream.BitStrings
import PackageAssets.Proofs.Stream.Twins

/-!
# The bits ahead

In either order a stream has one string of bits ahead: the pending bits, and
behind them those of the bytes ahead. A field is the front of that string, and
what follows it stays ahead, whichever bits were pending. When the string is too
short for the field the stream is left as it was.
-/
namespace PackageAssets

/-- Pending bits that are left of a byte, and nothing else in the number that holds them. -/
structure PendingBits.Partial (p : PendingBits) : Prop where
  few : p.count ≤ 7
  small : p.value < 2 ^ p.count

namespace PendingBits

theorem partial_none : Partial .none := ⟨by decide, by decide⟩

theorem partial_holding (order : BitOrder) {bits : List Bool} (few : bits.length ≤ 7) :
    Partial (holding order bits) := ⟨few, order.number_lt bits⟩

theorem holding_field (order : BitOrder) {p : PendingBits} (small : p.value < 2 ^ p.count) :
    holding order (order.field p.count p.value) = p := by
  rw [holding, BitOrder.number_field, BitOrder.length_field, Nat.mod_eq_of_lt small]

end PendingBits

/-- An access to a source fails, or yields what is there. -/
theorem Source.readAt_cases (s : Source) (position count : Nat) :
    s.readAt position count = .ok (bytesAt s.content position count) ∨
      ∃ e, s.readAt position count = .error e := by
  unfold readAt
  split
  · exact .inl rfl
  · split
    · exact .inr ⟨_, rfl⟩
    · exact .inl rfl
  · exact .inr ⟨_, rfl⟩

namespace Stream

/-- Every byte in the window can be read, whatever holds the source. -/
structure Legible (s : Stream) : Prop where
  within : s.window.Within s.source.length
  counted : ∀ start stop, s.window = .slice start stop → stop < Count.bound
  yields : ∀ position count, position < s.source.length →
    s.source.readAt position count = .ok (Source.bytesAt s.source.content position count)

/-- A legible stream may fail where nothing is ahead, one that is held does not. -/
theorem Held.legible {s : Stream} (held : s.Held) : s.Legible where
  within := held.within
  counted := held.counted
  yields _ count inside := (held.whole.mono (Nat.le_of_lt inside)).readAt count

theorem legible_ofFile {bytes : List UInt8} {furthest : Nat} (onDisk : bytes.length ≤ furthest)
    (writable : Bool) : (onSource (.ofFile bytes writable furthest)).Legible :=
  (held_ofFile onDisk writable).legible

theorem Legible.moved {s : Stream} (legible : s.Legible) (position : Nat) (pending : PendingBits) :
    (s.moved position pending).Legible := ⟨legible.within, legible.counted, legible.yields⟩

section Bytes

variable {s : Stream} (legible : s.Legible)

include legible

theorem readByte_of_cons {b : UInt8} {later : List UInt8} (known : s.ahead = b :: later) :
    readByte s = .ok b (s.seek (s.position + 1)) := by
  have found := bytesAt_allowance legible.counted 1
  rw [known, List.take_succ_cons, List.take_zero] at found
  have allowed : s.allowance 1 ≠ 0 := by
    intro none
    rw [none, Source.bytesAt, List.take_zero] at found
    cases found
  have inside : s.absolute < s.source.length := by
    apply Nat.lt_of_not_le
    intro behind
    rw [Source.bytesAt, List.drop_of_length_le behind, List.take_nil] at found
    cases found
  have read : readBytes 1 s = .ok [b] (s.seek (s.position + 1)) := by
    simp only [readBytes, if_neg allowed, legible.yields _ _ inside, found, List.length_singleton]
  have exact : readExact 1 s = .ok [b] (s.seek (s.position + 1)) := by
    simp only [readExact, read, List.length_singleton, if_true]
  rw [Stream.readByte, bind_of_ok exact]
  rfl

theorem readByte_of_nil (none : s.ahead = []) : ∃ e, readByte s = .error e s := by
  have found := bytesAt_allowance legible.counted 1
  rw [none, List.take_nil] at found
  suffices failed : ∃ e, readExact 1 s = .error e s by
    obtain ⟨e, failed⟩ := failed
    exact ⟨e, bind_of_error failed⟩
  by_cases allowed : s.allowance 1 = 0
  · have read : readBytes 1 s = .ok [] s := if_pos allowed
    simp [readExact, read]
  · rcases s.source.readAt_cases s.absolute (s.allowance 1) with yielded | ⟨e, failed⟩
    · have read : readBytes 1 s = .ok [] s := by
        simp only [readBytes, if_neg allowed, yielded, found, List.length_nil, Nat.add_zero,
          seek_self]
      simp [readExact, read]
    · have read : readBytes 1 s = .error e s := by
        simp only [readBytes, if_neg allowed, failed]
      exact ⟨e, by rw [readExact, read]⟩

end Bytes

/-! ### The string of bits -/

/-- The bits of the bytes from a position on. -/
def bitsFrom (order : BitOrder) (s : Stream) (position : Nat) : List Bool :=
  (s.visible.drop position).flatMap order.ofByte

/-- The pending bits, and behind them those of the bytes ahead. -/
def bitsAhead (order : BitOrder) (s : Stream) : List Bool :=
  order.field s.cursor.pending.count s.cursor.pending.value ++ s.bitsFrom order s.position

theorem length_bitsFrom (order : BitOrder) (s : Stream) (position : Nat) :
    (s.bitsFrom order position).length = 8 * (s.visible.length - position) := by
  rw [bitsFrom, length_flatMap_of_sized order.length_ofByte, List.length_drop]

theorem length_bitsAhead (order : BitOrder) {s : Stream}
    (within : s.window.Within s.source.length) :
    (s.bitsAhead order).length = s.cursor.pending.count + 8 * s.remaining := by
  rw [bitsAhead, List.length_append, BitOrder.length_field, length_bitsFrom,
    length_visible_of_within within, remaining]

theorem bitsAhead_holding (order : BitOrder) (s : Stream) (position : Nat) (held : List Bool) :
    (s.moved position (.holding order held)).bitsAhead order =
      held ++ s.bitsFrom order position := by
  change order.field held.length (order.number held) ++ s.bitsFrom order position = _
  rw [BitOrder.field_number]

/-- The front of the bits from a position on is a byte, if there is one. -/
theorem bitsFrom_cons {order : BitOrder} {s : Stream} {position : Nat} {b : UInt8}
    {later : List UInt8} (known : s.visible.drop position = b :: later) :
    s.bitsFrom order position = order.ofByte b ++ s.bitsFrom order (position + 1) := by
  have behind : s.visible.drop (position + 1) = later := by
    rw [← List.drop_drop, known, List.drop_one, List.tail_cons]
  rw [bitsFrom, bitsFrom, known, behind, List.flatMap_cons]

/-! ### One field -/

/-- With nothing more wanted the number is there. -/
theorem gatherBits_zero (order : BitOrder) (rounds gathered held : Nat) :
    gatherBits order rounds 0 gathered held = pure gathered := by
  cases rounds <;> rfl

/-- One round takes what it can from the bits that are held. -/
theorem gatherBits_round {order : BitOrder} {s t : Stream} {rounds wanted : Nat}
    {had taken left : List Bool} (positive : 0 < wanted)
    (load : loadBits s = .ok (.holding order (taken ++ left)) t)
    (size : taken.length = min wanted (taken ++ left).length) :
    gatherBits order (rounds + 1) wanted (order.number had) had.length s =
      gatherBits order rounds (wanted - taken.length) (order.number (had ++ taken))
        (had ++ taken).length (t.withPending (.holding order left)) := by
  obtain ⟨wanted, rfl⟩ := Nat.exists_eq_add_of_lt positive
  have most : min (0 + wanted + 1) (PendingBits.holding order (taken ++ left)).count =
      taken.length := size.symm
  rw [gatherBits, bind_of_ok load]
  · dsimp only
    rw [most, PendingBits.take_holding, BitOrder.number_append, List.length_append]
    rfl
  · exact Nat.succ_ne_zero _

theorem gatherBits_of_error {order : BitOrder} {s t : Stream} {rounds wanted gathered held : Nat}
    {e : IoError} (positive : 0 < wanted) (failed : loadBits s = .error e t) :
    gatherBits order (rounds + 1) wanted gathered held s = .error e t := by
  obtain ⟨wanted, rfl⟩ := Nat.exists_eq_add_of_lt positive
  rw [gatherBits]
  · exact bind_of_error failed
  · exact Nat.succ_ne_zero _

section Fields

variable (order : BitOrder) {s : Stream} (legible : s.Legible)

include legible

/-- There is nothing ahead, or bits are held afterwards, of a byte that was loaded if need be. -/
theorem loadBits_cases (held : List Bool) (position : Nat) :
    (held ++ s.bitsFrom order position = [] ∧ ∃ e,
      loadBits (s.moved position (.holding order held)) =
        .error e (s.moved position (.holding order held))) ∨
    ∃ loaded there, (held.length = 0 ∧ loaded = 1 ∨ 0 < held.length ∧ loaded = 0) ∧
      there.length = held.length + 8 * loaded ∧
      loadBits (s.moved position (.holding order held)) =
        .ok (.holding order there) (s.moved (position + loaded) (.holding order there)) ∧
      there ++ s.bitsFrom order (position + loaded) = held ++ s.bitsFrom order position := by
  by_cases none : held = []
  · subst none
    have empty : (s.moved position (.holding order [])).cursor.pending.count = 0 := rfl
    have here := legible.moved position (.holding order [])
    cases known : s.visible.drop position with
    | nil =>
      obtain ⟨e, failed⟩ := readByte_of_nil here known
      refine .inl ⟨?_, e, ?_⟩
      · rw [bitsFrom, known]
        rfl
      · simp only [loadBits, empty, if_true, failed]
    | cons b later =>
      have read := readByte_of_cons here known
      refine .inr ⟨1, order.ofByte b, .inl ⟨rfl, rfl⟩, order.length_ofByte b, ?_,
        (bitsFrom_cons known).symm⟩
      · simp only [loadBits, empty, if_true, read, PendingBits.ofByte_eq_holding order]
        rfl
  · have some := List.length_pos_iff.mpr none
    refine .inr ⟨0, held, .inr ⟨some, rfl⟩, rfl, ?_, rfl⟩
    exact if_neg (Nat.pos_iff_ne_zero.mp some)

/--
The bits that are wanted are put behind those gathered so far, or there are too few of them. The
string of bits that are held and of those behind them is what the loop takes from.
-/
theorem gatherBits_cases {rounds wanted : Nat} (enough : wanted ≤ rounds) (had : List Bool)
    (held : List Bool) (position : Nat) :
    (wanted ≤ (held ++ s.bitsFrom order position).length ∧ ∃ left reached,
      (held.length ≤ 7 → left.length ≤ 7) ∧
      reached = position + (wanted - held.length + 7) / 8 ∧
      gatherBits order rounds wanted (order.number had) had.length
          (s.moved position (.holding order held)) =
        .ok (order.number (had ++ (held ++ s.bitsFrom order position).take wanted))
          (s.moved reached (.holding order left)) ∧
      left ++ s.bitsFrom order reached = (held ++ s.bitsFrom order position).drop wanted) ∨
    ((held ++ s.bitsFrom order position).length < wanted ∧ ∃ e stopped pending,
      gatherBits order rounds wanted (order.number had) had.length
          (s.moved position (.holding order held)) = .error e (s.moved stopped pending)) := by
  induction rounds generalizing wanted had held position with
  | zero =>
    obtain rfl := Nat.le_zero.mp enough
    rw [gatherBits_zero, List.take_zero, List.append_nil]
    exact .inl ⟨Nat.zero_le _, held, position, id, by omega, rfl, rfl⟩
  | succ rounds ih =>
    by_cases done : wanted = 0
    · subst done
      rw [gatherBits_zero, List.take_zero, List.append_nil]
      exact .inl ⟨Nat.zero_le _, held, position, id, by omega, rfl, rfl⟩
    have positive := Nat.pos_of_ne_zero done
    rcases loadBits_cases order legible held position with
      ⟨nothing, e, failed⟩ | ⟨loaded, there, which, size, load, same⟩
    · rw [nothing]
      exact .inr ⟨positive, e, _, _, gatherBits_of_error positive failed⟩
    · obtain ⟨taken, left, rfl, most⟩ := exists_split (Nat.min_le_right wanted there.length)
      rw [gatherBits_round positive load most, ← same, List.append_assoc]
      rw [List.length_append] at size most
      have fewer : wanted - taken.length ≤ rounds := by omega
      rcases ih fewer (had ++ taken) left (position + loaded) with
        ⟨more, rest, reached, few, place, read, ahead⟩ | ⟨short, e, stopped, pending, failed⟩
      · refine .inl ⟨?_, rest, reached, ?_, ?_, ?_, ?_⟩
        · rw [List.length_append]
          omega
        · intro partly
          exact few (by omega)
        · omega
        · rw [List.take_append, List.take_of_length_le (by omega), ← List.append_assoc]
          exact read
        · rw [List.drop_append, List.drop_of_length_le (by omega), List.nil_append]
          exact ahead
      · refine .inr ⟨?_, e, stopped, pending, failed⟩
        rw [List.length_append]
        omega

end Fields

theorem readBits_of_wide {order : BitOrder} {width : Nat} (wide : BitOrder.widest < width)
    (s : Stream) : readBits order width s = .error (.bitWidth width) s := if_pos wide

/-- A field is the front of the bits ahead, or there are too few of them and nothing happens. -/
theorem readBits_cases {s : Stream} (legible : s.Legible)
    (small : s.cursor.pending.value < 2 ^ s.cursor.pending.count) (order : BitOrder) {width : Nat}
    (narrow : width ≤ BitOrder.widest) :
    (width ≤ (s.bitsAhead order).length ∧ ∃ left reached,
      (s.cursor.pending.count ≤ 7 → left.length ≤ 7) ∧
      reached = s.position + (width - s.cursor.pending.count + 7) / 8 ∧
      readBits order width s = .ok (order.number ((s.bitsAhead order).take width))
        (s.moved reached (.holding order left)) ∧
      left ++ s.bitsFrom order reached = (s.bitsAhead order).drop width) ∨
    ((s.bitsAhead order).length < width ∧ ∃ e, readBits order width s = .error e s) := by
  have held := PendingBits.holding_field order small
  have nothing : order.number [] = 0 := by cases order <;> rfl
  let bits := order.field s.cursor.pending.count s.cursor.pending.value
  have gathered := gatherBits_cases order legible (Nat.le_refl width) [] bits s.position
  rw [held, nothing, BitOrder.length_field] at gathered
  rcases gathered with ⟨enough, left, reached, few, place, read, ahead⟩ | ⟨short, e, stopped,
    pending, failed⟩
  · refine .inl ⟨enough, left, reached, few, place, ?_, ahead⟩
    have read : gatherBits order width width 0 0 s = _ := read
    simp only [readBits, if_neg (Nat.not_lt.mpr narrow), read]
    rfl
  · refine .inr ⟨short, e, ?_⟩
    have failed : gatherBits order width width 0 0 s = _ := failed
    simp only [readBits, if_neg (Nat.not_lt.mpr narrow), failed]
    rfl

end Stream

end PackageAssets
