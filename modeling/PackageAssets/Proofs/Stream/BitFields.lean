import Mathlib.Algebra.GroupWithZero.Nat
import PackageAssets.Proofs.Bytes.Stored
import PackageAssets.Proofs.Stream.BitsAhead

/-!
# Packing fields and reading them back

A packer holds whole bytes and fewer than eight pending bits, together the string
of the bits of its fields. A cursor over the bytes holds pending bits in front of
the bytes behind its position, together the string it has yet to deliver. Fields
come back as they were put, since every put appends to the one string and every
read takes from the front of the other.
-/
namespace PackageAssets

namespace BitPacker

/-- The packer has packed this string of bits. -/
structure Packs (order : BitOrder) (p : BitPacker) (bits : List Bool) : Prop where
  ordered : p.order = order
  held : ∃ rest, rest.length < 8 ∧ p.pending = .holding order rest ∧
    bits = p.bytes.flatMap order.ofByte ++ rest

variable {order : BitOrder} {p : BitPacker} {bits : List Bool}

theorem packs_empty (order : BitOrder) : Packs order (empty order) [] :=
  ⟨rfl, [], by decide, (PendingBits.holding_nil order).symm, rfl⟩

/-- Whole bytes are moved out of the pending bits until fewer than eight are left. -/
theorem packs_flush {rounds : Nat} {rest : List Bool} (same : p.order = order)
    (pending : p.pending = .holding order rest) (few : rest.length < 8 * (rounds + 1)) :
    Packs order (flush rounds p) (p.bytes.flatMap order.ofByte ++ rest) := by
  induction rounds generalizing p rest with
  | zero => exact ⟨same, rest, few, pending, rfl⟩
  | succ rounds ih =>
    have count : p.pending.count = rest.length := by rw [pending, PendingBits.holding]
    rw [flush, count]
    by_cases whole : rest.length < 8
    · rw [if_pos whole]
      exact ⟨same, rest, whole, pending, rfl⟩
    · obtain ⟨byte, later, rfl, size⟩ := exists_split (Nat.le_of_not_lt whole)
      have taken := PendingBits.take_holding order byte later
      rw [size] at taken
      rw [if_neg whole, pending, same, taken]
      have packs := ih (p := ⟨p.order, p.bytes ++ [UInt8.ofNat (order.number byte)],
        .holding order later⟩) same rfl (by rw [List.length_append] at few; omega)
      simpa [order.ofByte_number size, same] using packs

theorem packs_put (packs : Packs order p bits) {width : Nat} (narrow : width ≤ BitOrder.widest)
    (value : Nat) : ∃ q, p.put width value = .ok q ∧
      Packs order q (bits ++ order.field width value) := by
  obtain ⟨rfl, rest, few, pending, rfl⟩ := packs
  have joined := join_holding pending width value
  have count : p.pending.count = rest.length := by rw [pending, PendingBits.holding]
  refine ⟨_, if_neg (Nat.not_lt.mpr narrow), ?_⟩
  rw [List.append_assoc]
  refine packs_flush (p := { p with pending := p.join width value }) rfl joined ?_
  rw [List.length_append, BitOrder.length_field, count]
  omega

/-- A field next to the pending bits takes at most 39 bits, which any word of 64 has. -/
theorem join_lt (packs : Packs order p bits) {width : Nat} (narrow : width ≤ BitOrder.widest)
    (value : Nat) : (p.join width value).value < 2 ^ 39 := by
  obtain ⟨rfl, rest, few, pending, -⟩ := packs
  have small := p.order.number_lt (rest ++ p.order.field width value)
  rw [join_holding pending]
  refine Nat.lt_of_lt_of_le small (Nat.pow_le_pow_right (by decide) ?_)
  rw [List.length_append, BitOrder.length_field]
  unfold BitOrder.widest at narrow
  omega

theorem Packs.length_eq (packs : Packs order p bits) :
    ∃ rest, rest.length < 8 ∧ p.pending = .holding order rest ∧
      bits = p.bytes.flatMap order.ofByte ++ rest ∧
      bits.length = 8 * p.bytes.length + rest.length := by
  obtain ⟨-, rest, few, pending, rfl⟩ := packs
  refine ⟨rest, few, pending, rfl, ?_⟩
  rw [List.length_append, length_flatMap_of_sized order.length_ofByte]

/-- The zero bits that fill up the last byte. -/
def padding (bits : List Bool) : List Bool := List.replicate ((8 - bits.length % 8) % 8) false

/-- The bits of the last byte, if it is not whole, are filled up with zeros. -/
theorem finish_partial (same : p.order = order) {rest : List Bool} (some : rest.length ≠ 0)
    (pending : p.pending = .holding order rest) :
    p.finish = p.bytes ++
      [UInt8.ofNat (order.number (rest ++ List.replicate (8 - rest.length) false))] := by
  have number := order.number_append rest (List.replicate (8 - rest.length) false)
  rw [BitOrder.number_replicate_false, List.length_replicate] at number
  rw [number]
  subst same
  cases high : p.order <;> simp [finish, pending, PendingBits.holding, some, high, Stream.joinBits]

theorem finish_eq (packs : Packs order p bits) :
    p.finish.flatMap order.ofByte = bits ++ padding bits ∧
      p.finish.length = (bits.length + 7) / 8 := by
  obtain ⟨rest, few, pending, split, length⟩ := packs.length_eq
  unfold padding
  by_cases none : rest.length = 0
  · have whole : (8 - bits.length % 8) % 8 = 0 := by omega
    have done : p.finish = p.bytes := if_pos (by rw [pending, PendingBits.holding, none])
    rw [done, whole]
    constructor
    · simp [split, List.length_eq_zero_iff.mp none]
    · omega
  · have missing : (8 - bits.length % 8) % 8 = 8 - rest.length := by omega
    have size : (rest ++ List.replicate (8 - rest.length) false).length = 8 := by
      rw [List.length_append, List.length_replicate]
      omega
    rw [finish_partial packs.ordered none pending, missing]
    constructor
    · simp [order.ofByte_number size, split]
    · rw [List.length_append, List.length_singleton]
      omega

/-- Puts in order: how each was refused, if it was, and the packer after them. -/
def putAll : List (Nat × Nat) → BitPacker → List (Option IoError) × BitPacker
  | [], p => ([], p)
  | (width, value) :: rest, p =>
    match p.put width value with
    | .ok q =>
      let (others, last) := putAll rest q
      (none :: others, last)
    | .error e =>
      let (others, last) := putAll rest p
      (some e :: others, last)

/-- How a put of this width is refused, if it is. -/
def refusal (width : Nat) : Option IoError :=
  if width ≤ BitOrder.widest then none else some (.bitWidth width)

/-- The fields that are not too wide. -/
def accepted (fields : List (Nat × Nat)) : List (Nat × Nat) :=
  fields.filter fun field => field.1 ≤ BitOrder.widest

/-- The bits of fields, one after another. -/
def bitsOf (order : BitOrder) (fields : List (Nat × Nat)) : List Bool :=
  fields.flatMap fun field => order.field field.1 field.2

theorem length_bitsOf (order : BitOrder) (fields : List (Nat × Nat)) :
    (bitsOf order fields).length = (fields.map Prod.fst).sum := by
  simp [bitsOf, List.length_flatMap]

theorem put_wide (p : BitPacker) {width : Nat} (wide : ¬width ≤ BitOrder.widest) (value : Nat) :
    p.put width value = .error (.bitWidth width) := if_pos (Nat.lt_of_not_le wide)

/-- Just the fields that are not too wide are packed. -/
theorem putAll_eq (packs : Packs order p bits) (fields : List (Nat × Nat)) :
    (putAll fields p).1 = fields.map (fun field => refusal field.1) ∧
      (putAll fields p).2 = (putAll (accepted fields) p).2 ∧
      Packs order (putAll fields p).2 (bits ++ bitsOf order (accepted fields)) := by
  induction fields generalizing p bits with
  | nil =>
    rw [putAll, accepted, List.filter_nil, bitsOf, List.flatMap_nil, List.append_nil]
    exact ⟨rfl, rfl, packs⟩
  | cons field rest ih =>
    obtain ⟨width, value⟩ := field
    by_cases narrow : width ≤ BitOrder.widest
    · obtain ⟨q, put, packs⟩ := packs_put packs narrow value
      obtain ⟨refused, same, packs⟩ := ih packs
      have kept : accepted ((width, value) :: rest) = (width, value) :: accepted rest :=
        List.filter_cons_of_pos (decide_eq_true narrow)
      have bitsOf_cons : bitsOf order ((width, value) :: accepted rest) =
          order.field width value ++ bitsOf order (accepted rest) := List.flatMap_cons
      rw [kept, bitsOf_cons, ← List.append_assoc, putAll, putAll, put, List.map_cons, refusal,
        if_pos narrow]
      exact ⟨congrArg (none :: ·) refused, same, packs⟩
    · obtain ⟨refused, same, packs⟩ := ih packs
      have kept : accepted ((width, value) :: rest) = accepted rest :=
        List.filter_cons_of_neg (by simpa using narrow)
      rw [kept, putAll, put_wide p narrow, List.map_cons, refusal, if_neg narrow]
      exact ⟨congrArg (some _ :: ·) refused, same, packs⟩

end BitPacker

namespace Stream

variable {order : BitOrder} {content : List UInt8} {s : Stream}

/-- The cursor holds these bits of a byte it has read, and stands over `content` behind it. -/
structure Holds (order : BitOrder) (content : List UInt8) (held : List Bool) (s : Stream) :
    Prop where
  source : s.source = .ofBytes content
  atRoot : s.window = .root
  inside : s.position ≤ content.length
  pending : s.cursor.pending = .holding order held

/-- The bits that a cursor which holds some has yet to deliver. -/
def undelivered (order : BitOrder) (content : List UInt8) (held : List Bool) (s : Stream) :
    List Bool := held ++ (content.drop s.position).flatMap order.ofByte

/-- The cursor has yet to deliver these bits. -/
def Delivers (order : BitOrder) (content : List UInt8) (s : Stream) (bits : List Bool) : Prop :=
  ∃ held, Holds order content held s ∧ undelivered order content held s = bits

theorem delivers_ofBytes (order : BitOrder) (content : List UInt8) :
    Delivers order content (ofBytes content) (content.flatMap order.ofByte) :=
  ⟨[], ⟨rfl, rfl, Nat.zero_le _, (PendingBits.holding_nil order).symm⟩, rfl⟩

theorem Holds.legible {held : List Bool} (holds : Holds order content held s) : s.Legible where
  within := by
    rw [holds.atRoot]
    trivial
  counted _ _ window := by
    rw [holds.atRoot] at window
    cases window
  yields position count _ := by
    rw [holds.source]
    rfl

theorem Holds.bitsAhead_eq {held : List Bool} (holds : Holds order content held s) :
    s.bitsAhead order = undelivered order content held s := by
  have shows : s.visible = content := by
    rw [visible, holds.atRoot, holds.source]
    rfl
  have ahead := bitsAhead_holding order s s.position held
  rw [← holds.pending] at ahead
  rw [undelivered, ← shows]
  exact ahead

/-- A field is read off the front of what the cursor has to deliver. -/
theorem readBits_eq {want rest : List Bool} (narrow : want.length ≤ BitOrder.widest)
    (delivers : Delivers order content s (want ++ rest)) :
    ∃ t, readBits order want.length s = .ok (order.number want) t ∧
      Delivers order content t rest := by
  obtain ⟨held, holds, same⟩ := delivers
  have small : s.cursor.pending.value < 2 ^ s.cursor.pending.count := by
    rw [holds.pending]
    exact order.number_lt held
  have count : s.cursor.pending.count = held.length := by
    rw [holds.pending, PendingBits.holding]
  have total := congrArg List.length same
  rw [undelivered, List.length_append,
    length_flatMap_of_sized order.length_ofByte (content.drop s.position), List.length_drop,
    List.length_append] at total
  rcases readBits_cases holds.legible small order narrow with
    ⟨-, left, reached, -, place, read, ahead⟩ | ⟨short, -⟩
  · rw [holds.bitsAhead_eq, same, List.take_left] at read
    rw [holds.bitsAhead_eq, same, List.drop_left] at ahead
    have inside := holds.inside
    have moved : Holds order content left (s.moved reached (.holding order left)) := by
      refine ⟨holds.source, holds.atRoot, ?_, rfl⟩
      change reached ≤ content.length
      omega
    have later := moved.bitsAhead_eq
    rw [bitsAhead_holding, ahead] at later
    exact ⟨_, read, left, moved, later.symm⟩
  · rw [holds.bitsAhead_eq, same, List.length_append] at short
    omega

/-- Fields that were packed are read in their order. -/
theorem readAll_eq {fields : List (Nat × Nat)} {rest : List Bool}
    (narrow : ∀ field ∈ fields, field.1 ≤ BitOrder.widest)
    (delivers : Delivers order content s (BitPacker.bitsOf order fields ++ rest)) :
    ∃ t, fields.mapM (fun field => readBits order field.1) s =
      .ok (fields.map fun field => field.2 % 2 ^ field.1) t ∧ Delivers order content t rest := by
  induction fields generalizing s with
  | nil => exact ⟨s, rfl, delivers⟩
  | cons field others ih =>
    obtain ⟨width, value⟩ := field
    obtain ⟨first, later⟩ := List.forall_mem_cons.mp narrow
    have size := order.length_field width value
    have number := order.number_field width value
    rw [BitPacker.bitsOf, List.flatMap_cons, List.append_assoc] at delivers
    obtain ⟨t, read, delivers⟩ := readBits_eq (size.symm ▸ first) delivers
    obtain ⟨u, readRest, delivers⟩ := ih later delivers
    rw [size, number] at read
    refine ⟨u, ?_, delivers⟩
    rw [List.mapM_cons, bind_of_ok read, bind_of_ok readRest]
    rfl

/-- With less than a byte left to deliver the cursor holds it, and stands at the end. -/
theorem Delivers.atEnd {bits : List Bool} (delivers : Delivers order content s bits)
    (few : bits.length < 8) :
    s.position = content.length ∧ s.atEnd = true ∧ s.cursor.pending = .holding order bits := by
  obtain ⟨held, holds, rfl⟩ := delivers
  have size := length_flatMap_of_sized order.length_ofByte (content.drop s.position)
  rw [undelivered, List.length_append, size, List.length_drop] at few
  have inside := holds.inside
  have there : s.position = content.length := by omega
  have length : s.length = content.length := by
    rw [Stream.length, holds.atRoot, holds.source]
    rfl
  refine ⟨there, ?_, ?_⟩
  · rw [Stream.atEnd, remaining, length, there, Nat.sub_self]
    rfl
  · rw [undelivered, there, List.drop_length, List.flatMap_nil, List.append_nil]
    exact holds.pending

end Stream

open BitPacker in
/--
Packing and reading are inverse. Of any fields put into one packer those wider than any field are
refused, and have no effect; the others fill the bytes up to fewer than eight zero bits. Reading
their widths in order over these bytes yields their low bits, and leaves a cursor at the end that
holds just the zero bits. A word of 64 bits has room for the pending bits and any further field.
-/
theorem bitFields_round_trip (order : BitOrder) (fields : List (Nat × Nat)) :
    let kept := accepted fields
    let total := (kept.map Prod.fst).sum
    let packed := putAll fields (.empty order)
    let bytes := packed.2.finish
    packed.1 = fields.map (fun field => refusal field.1) ∧
      packed.2 = (putAll kept (.empty order)).2 ∧
      bytes.length = (total + 7) / 8 ∧
      (∀ width value, width ≤ BitOrder.widest → (packed.2.join width value).value < 2 ^ 64) ∧
      ∃ t, kept.mapM (fun field => Stream.readBits order field.1) (.ofBytes bytes) =
          .ok (kept.map fun field => field.2 % 2 ^ field.1) t ∧
        t.position = bytes.length ∧ t.atEnd = true ∧
        t.cursor.pending = ⟨0, (8 - total % 8) % 8⟩ := by
  intro kept total packed bytes
  obtain ⟨refused, same, packs⟩ := putAll_eq (packs_empty order) fields
  rw [List.nil_append] at packs
  obtain ⟨filled, length⟩ := finish_eq packs
  have size : (bitsOf order kept).length = total := length_bitsOf order kept
  have narrow : ∀ field ∈ kept, field.1 ≤ BitOrder.widest := fun field member =>
    of_decide_eq_true (List.mem_filter.mp member).2
  have delivers := Stream.delivers_ofBytes order bytes
  rw [filled] at delivers
  obtain ⟨t, read, delivers⟩ := Stream.readAll_eq narrow delivers
  have few : (padding (bitsOf order kept)).length < 8 := by
    rw [padding, List.length_replicate]
    exact Nat.mod_lt _ (by decide)
  obtain ⟨there, atEnd, pending⟩ := delivers.atEnd few
  rw [padding, PendingBits.holding_replicate_false, size] at pending
  rw [size] at length
  refine ⟨refused, same, length, fun width value narrow => ?_, t, read, there, atEnd, pending⟩
  exact Nat.lt_trans (join_lt packs narrow value) (by decide)

/-- Of three fields the second is too wide, and a widest one has room behind them. -/
theorem bitFields_round_trip_threeFields :
    let packed := BitPacker.putAll [(3, 0b1101), (40, 1), (6, 0b11)] (.empty .high)
    packed.1 = [none, some (.bitWidth 40), none] ∧ packed.2.finish.length = 2 ∧
      (packed.2.join 32 (2 ^ 32 - 1)).value < 2 ^ 64 ∧
      ∃ t, [(3, 0b1101), (6, 0b11)].mapM (fun field => Stream.readBits .high field.1)
          (.ofBytes packed.2.finish) = .ok [0b101, 0b11] t ∧
        t.position = 2 ∧ t.cursor.pending = ⟨0, 7⟩ := by
  obtain ⟨refused, -, length, room, t, read, there, -, pending⟩ :=
    bitFields_round_trip .high [(3, 0b1101), (40, 1), (6, 0b11)]
  exact ⟨refused, length, room 32 _ (by decide), t, read, there.trans length, pending⟩

example : (BitPacker.putAll [(3, 0b101), (5, 0b00011)] (.empty .high)).2.finish = [0b10100011] := by
  decide

end PackageAssets
