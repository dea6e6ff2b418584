import PackageAssets.Proofs.Stream.BitsAhead
import PackageAssets.Proofs.Stream.Ends
import PackageAssets.Proofs.Stream.ReadSide

/-!
# Reading bits among other reads

However fields in both orders, alignment, seeks and byte reads are mixed, a
cursor holds at most seven bits, and nothing but them in the number that holds
them. From there every field is what the bits ahead say. Since what is left
behind one field is again such a state, a field read in two parts is the one that
is read at once.
-/
namespace PackageAssets

namespace Stream

variable {s t : Stream}

/-! ### States between reads -/

/-- The stream `t` is `s` at some position, with part of a byte pending. -/
def Partway (s t : Stream) : Prop :=
  ∃ position pending, pending.Partial ∧ t = s.moved position pending

theorem partway_self (pending : s.cursor.pending.Partial) : Partway s s :=
  ⟨s.position, s.cursor.pending, pending, rfl⟩

namespace Partway

theorem seek (partway : Partway s t) (position : Nat) : Partway s (t.seek position) := by
  obtain ⟨_, pending, held, rfl⟩ := partway
  exact ⟨position, pending, held, rfl⟩

theorem pending (partway : Partway s t) : t.cursor.pending.Partial := by
  obtain ⟨_, _, held, rfl⟩ := partway
  exact held

theorem remaining_eq (partway : Partway s t) : t.remaining = s.length - t.position := by
  obtain ⟨_, _, -, rfl⟩ := partway
  rfl

theorem legible (partway : Partway s t) (legible : s.Legible) : t.Legible := by
  obtain ⟨position, pending, -, rfl⟩ := partway
  exact legible.moved position pending

theorem trans {u : Stream} (first : Partway s t) (later : Partway t u) : Partway s u := by
  obtain ⟨_, _, -, rfl⟩ := first
  obtain ⟨position, pending, held, rfl⟩ := later
  exact ⟨position, pending, held, rfl⟩

/-- Where a stream stands, the bits ahead say which of them are pending. -/
theorem eq_of_bitsAhead (order : BitOrder) {u v : Stream} (left : Partway s u)
    (right : Partway s v) (place : u.position = v.position)
    (ahead : u.bitsAhead order = v.bitsAhead order) : u = v := by
  obtain ⟨position, pending, held, rfl⟩ := left
  obtain ⟨_, pending', held', rfl⟩ := right
  obtain rfl : position = _ := place
  have same : order.field pending.count pending.value = order.field pending'.count pending'.value :=
    List.append_cancel_right ahead
  rw [← PendingBits.holding_field order held.small, ← PendingBits.holding_field order held'.small,
    same]

end Partway

theorem Moves.keeps_partway {α : Type} {step : StreamM α} (moves : Moves step) (s : Stream) :
    Keeps (Partway s) step := by
  intro t partway
  obtain ⟨position, left⟩ := moves.left t
  apply Ends.of_leftBy
  rw [left]
  exact partway.seek position

theorem keeps_readBits (legible : s.Legible) (order : BitOrder) (width : Nat) :
    Keeps (Partway s) (readBits order width) := by
  intro t partway
  by_cases wide : BitOrder.widest < width
  · rw [readBits_of_wide wide]
    exact .error partway
  · rcases readBits_cases (partway.legible legible) partway.pending.small order
      (Nat.not_lt.mp wide) with ⟨-, left, reached, few, -, read, -⟩ | ⟨-, e, failed⟩
    · rw [read]
      obtain ⟨_, _, held, rfl⟩ := partway
      exact .ok ⟨reached, _, PendingBits.partial_holding order (few held.few), rfl⟩
    · rw [failed]
      exact .error partway

theorem keeps_alignBits (s : Stream) : Keeps (Partway s) alignBits := by
  rintro _ ⟨position, pending, -, rfl⟩
  exact .ok ⟨position, .none, PendingBits.partial_none, rfl⟩

theorem keeps_lift {α : Type} {kept : Stream → Prop} {step : StreamM α} (keeps : Keeps kept step) :
    Keeps kept (Standard.lift step) := by
  intro t held
  have ends := keeps t held
  unfold Standard.lift
  generalize step t = result at ends
  cases ends with
  | ok finished => exact .ok finished
  | error stopped => exact .error stopped

theorem keeps_readFull (s : Stream) (count : Nat) : Keeps (Partway s) (Standard.readFull count) :=
  leaves_bind (keeps_lift ((moves_readBytes count).keeps_partway s)) fun bytes =>
    leaves_check (keeps_pure bytes)

theorem keeps_readToEnd (s : Stream) : Keeps (Partway s) Standard.readToEnd := fun t held =>
  keeps_lift ((moves_readBytes (t.remaining + 1)).keeps_partway s) t held

theorem keeps_standardSeek (s : Stream) (anchor : Standard.Anchor) (distance : Int) :
    Keeps (Partway s) (Standard.seek anchor distance) := by
  intro t partway
  unfold Standard.seek
  dsimp only
  split
  · exact .ok (partway.seek _)
  · exact .error partway

end Stream

/-! ### Requests -/

namespace Action

open PackageAssets.Stream

variable {α : Type} {s t : Stream}

theorem ofResult_keeps {kept : Stream → Prop} {step : StreamM α} (keeps : Keeps kept step)
    (answer : α → Answer) (held : kept t) : kept (Answer.ofResult answer (step t)).2 := by
  have ends := keeps t held
  generalize step t = result at ends
  cases ends with
  | ok finished => exact finished
  | error stopped => exact stopped

theorem ofStandard_keeps {kept : Stream → Prop} {step : StandardM α} (keeps : Keeps kept step)
    (answer : α → Answer) (held : kept t) : kept (Answer.ofStandard answer (step t)).2 := by
  have ends := keeps t held
  generalize step t = result at ends
  cases ends with
  | ok finished => exact finished
  | error stopped => exact stopped

/-- Every request of the read side leaves the stream partway through its bits. -/
theorem run_keeps_partway (legible : s.Legible) {action : Action} (reads : action.ReadSide)
    (partway : Partway s t) : Partway s (action.run t).2 := by
  cases action with
  | position | length | remaining | availableBits | atEnd | standardFlush => exact partway
  | setPosition position => exact partway.seek position
  | skip count => exact ofResult_keeps ((moves_skip count).keeps_partway s) _ partway
  | rewind count => exact ofResult_keeps ((moves_rewind count).keeps_partway s) _ partway
  | alignBits => exact ofResult_keeps (keeps_alignBits s) _ partway
  | readBytes count => exact ofResult_keeps ((moves_readBytes count).keeps_partway s) _ partway
  | readExact count => exact ofResult_keeps ((moves_readExact count).keeps_partway s) _ partway
  | readVector count => exact ofResult_keeps ((moves_readBytes count).keeps_partway s) _ partway
  | readRemaining => exact ofResult_keeps (moves_readRemaining.keeps_partway s) _ partway
  | contents => exact ofResult_keeps (moves_contents.keeps_partway s) _ partway
  | readInt format => exact ofResult_keeps ((moves_readInt format).keeps_partway s) _ partway
  | readIntOrZero format =>
    exact ofResult_keeps ((moves_readIntOrZero format).keeps_partway s) _ partway
  | readTextFixed count =>
    exact ofResult_keeps ((moves_readTextFixed count).keeps_partway s) _ partway
  | readText => exact ofResult_keeps (moves_readText.keeps_partway s) _ partway
  | readBits order width => exact ofResult_keeps (keeps_readBits legible order width) _ partway
  | standardRead count =>
    exact ofStandard_keeps (keeps_lift ((moves_readBytes count).keeps_partway s)) _ partway
  | standardReadFull count => exact ofStandard_keeps (keeps_readFull s count) _ partway
  | standardReadToEnd => exact ofStandard_keeps (keeps_readToEnd s) _ partway
  | standardSeek anchor distance =>
    exact ofStandard_keeps (keeps_standardSeek s anchor distance) _ partway
  | isSlice | window | describe | writeBytes | writeInt | writeText | writeTextFixed
  | writeToAlign | standardWrite | standardWriteAll => exact reads.elim

/-- The stream after requests, one after another. -/
def runAll (actions : List Action) (s : Stream) : Stream :=
  actions.foldl (fun s action => (action.run s).2) s

theorem runAll_keeps_partway (legible : s.Legible) {actions : List Action}
    (reads : ∀ action ∈ actions, action.ReadSide) (partway : Partway s t) :
    Partway s (runAll actions t) := by
  induction actions generalizing t with
  | nil => exact partway
  | cons action actions ih =>
    obtain ⟨first, others⟩ := List.forall_mem_cons.mp reads
    exact ih others (run_keeps_partway legible first partway)

end Action

/-! ### Fields -/

namespace Stream

variable {t : Stream} (legible : t.Legible) (pending : t.cursor.pending.Partial)

include legible pending

/-- A field that is there in full is read, and the bits behind it stay ahead. -/
theorem readBits_of_enough {order : BitOrder} {width : Nat} (narrow : width ≤ BitOrder.widest)
    (enough : width ≤ (t.bitsAhead order).length) :
    ∃ u, readBits order width t = .ok (order.number ((t.bitsAhead order).take width)) u ∧
      u.bitsAhead order = (t.bitsAhead order).drop width ∧
      u.position = t.position + (width - t.cursor.pending.count + 7) / 8 ∧ Partway t u := by
  rcases readBits_cases legible pending.small order narrow with
    ⟨-, left, reached, few, place, read, ahead⟩ | ⟨short, -⟩
  · refine ⟨_, read, ?_, place, reached, _, PendingBits.partial_holding order (few pending.few),
      rfl⟩
    rw [bitsAhead_holding, ahead]
  · omega

/-- A field that is not there in full is refused, and nothing has happened. -/
theorem readBits_of_short {order : BitOrder} {width : Nat} (narrow : width ≤ BitOrder.widest)
    (short : (t.bitsAhead order).length < width) : ∃ e, readBits order width t = .error e t := by
  rcases readBits_cases legible pending.small order narrow with ⟨enough, -⟩ | ⟨-, failed⟩
  · omega
  · exact failed

/-- A field that was read was neither too wide nor too long for the bits ahead. -/
theorem enough_of_readBits {order : BitOrder} {width n : Nat} {u : Stream}
    (read : readBits order width t = .ok n u) :
    width ≤ BitOrder.widest ∧ width ≤ (t.bitsAhead order).length := by
  have narrow : width ≤ BitOrder.widest := by
    apply Nat.le_of_not_lt
    intro wide
    cases read.symm.trans (readBits_of_wide wide t)
  refine ⟨narrow, Nat.le_of_not_lt fun short => ?_⟩
  obtain ⟨e, failed⟩ := readBits_of_short legible pending narrow short
  cases read.symm.trans failed

theorem eq_of_readBits_error {order : BitOrder} {width : Nat} {e : IoError} {u : Stream}
    (failed : readBits order width t = .error e u) : u = t := by
  by_cases wide : BitOrder.widest < width
  · cases failed.symm.trans (readBits_of_wide wide t)
    rfl
  · rcases readBits_cases legible pending.small order (Nat.not_lt.mp wide) with
      ⟨-, left, reached, -, -, read, -⟩ | ⟨-, e', refused⟩
    · cases failed.symm.trans read
    · cases failed.symm.trans refused
      rfl

/-- Where enough bits are ahead, both parts of a field are there, and end where the field does. -/
theorem readBits_in_two {order : BitOrder} {first second : Nat}
    (narrow : first + second ≤ BitOrder.widest)
    (enough : first + second ≤ (t.bitsAhead order).length) :
    ∃ v u,
      readBits order first t = .ok (order.number ((t.bitsAhead order).take first)) v ∧
      readBits order second v =
        .ok (order.number (((t.bitsAhead order).drop first).take second)) u ∧
      readBits order (first + second) t =
        .ok (joinBits order (order.number ((t.bitsAhead order).take first)) first
          (order.number (((t.bitsAhead order).drop first).take second)) second) u := by
  have narrowFirst : first ≤ BitOrder.widest := by omega
  have narrowSecond : second ≤ BitOrder.widest := by omega
  have here : first ≤ (t.bitsAhead order).length := by omega
  obtain ⟨w, whole, ahead, place, partway⟩ := readBits_of_enough legible pending narrow enough
  obtain ⟨v, front, aheadFront, placeFront, toFront⟩ :=
    readBits_of_enough legible pending narrowFirst here
  have legible' := toFront.legible legible
  have rest : second ≤ (v.bitsAhead order).length := by
    rw [aheadFront, List.length_drop]
    omega
  obtain ⟨u, back, aheadBack, placeBack, toBack⟩ :=
    readBits_of_enough legible' toFront.pending narrowSecond rest
  have same : w = u := by
    refine partway.eq_of_bitsAhead order (toFront.trans toBack) ?_ ?_
    · -- the bytes in front of both are as many as the bits of both need
      have before := t.length_bitsAhead order legible.within
      have between := v.length_bitsAhead order legible'.within
      rw [aheadFront, List.length_drop, toFront.remaining_eq] at between
      rw [remaining] at before
      omega
    · rw [aheadBack, aheadFront, List.drop_drop, ahead]
  have size := List.length_take_of_le here
  have size' := List.length_take_of_le rest
  rw [aheadFront] at back size'
  rw [List.take_add, BitOrder.number_append, size, size', same] at whole
  exact ⟨v, u, front, back, whole⟩

/-- Where too few bits are ahead for a field, one of its parts is refused. -/
theorem not_readBits_in_two {order : BitOrder} {first second : Nat}
    (narrow : first + second ≤ BitOrder.widest)
    (short : (t.bitsAhead order).length < first + second) {a b : Nat} {v u : Stream}
    (front : readBits order first t = .ok a v) : readBits order second v ≠ .ok b u := by
  intro back
  have narrowFirst : first ≤ BitOrder.widest := by omega
  have narrowSecond : second ≤ BitOrder.widest := by omega
  by_cases enough : first ≤ (t.bitsAhead order).length
  · obtain ⟨_, again, ahead, -, toFront⟩ :=
      readBits_of_enough legible pending narrowFirst enough
    cases front.symm.trans again
    have few : (v.bitsAhead order).length < second := by
      rw [ahead, List.length_drop]
      omega
    obtain ⟨e, refused⟩ :=
      readBits_of_short (toFront.legible legible) toFront.pending narrowSecond few
    cases back.symm.trans refused
  · obtain ⟨e, refused⟩ :=
      readBits_of_short legible pending narrowFirst (Nat.lt_of_not_le enough)
    cases front.symm.trans refused

/-- Some bits and then more of them are the two parts of one field. -/
theorem readBits_add {order : BitOrder} {first second : Nat}
    (narrow : first + second ≤ BitOrder.widest) (n : Nat) (u : Stream) :
    readBits order (first + second) t = .ok n u ↔
      ∃ a v b, readBits order first t = .ok a v ∧ readBits order second v = .ok b u ∧
        n = joinBits order a first b second := by
  by_cases enough : first + second ≤ (t.bitsAhead order).length
  · obtain ⟨v, w, front, back, whole⟩ := readBits_in_two legible pending narrow enough
    rw [whole]
    constructor
    · intro read
      cases read
      exact ⟨_, v, _, front, back, rfl⟩
    · rintro ⟨a, v', b, front', back', rfl⟩
      cases front.symm.trans front'
      cases back.symm.trans back'
      rfl
  · have short := Nat.lt_of_not_le enough
    obtain ⟨e, failed⟩ := readBits_of_short legible pending narrow short
    rw [failed]
    constructor
    · intro read
      cases read
    · rintro ⟨a, v, b, front, back, -⟩
      exact absurd back (not_readBits_in_two legible pending narrow short front)

end Stream

open PackageAssets.Stream in
/--
However fields, alignment, seeks and byte reads were mixed before, at most seven bits are pending.
A field of up to 32 bits is then read just if there are as many bits ahead, pending ones and those
of the bytes ahead. It is the number of the first of them, and leaves the others ahead, from the
last byte it needed on. A field that is refused leaves the stream as it was. Reading a field at
once is reading it in two parts.
-/
theorem readBits_reads_bitsAhead {s : Stream} (legible : s.Legible)
    (aligned : s.cursor.pending = .none) {requests : List Action}
    (reads : ∀ request ∈ requests, request.ReadSide) (order : BitOrder) (width : Nat) :
    let t := Action.runAll requests s
    let held := t.cursor.pending.count
    let bits := t.bitsAhead order
    (held ≤ 7 ∧ t.cursor.pending.value < 2 ^ held) ∧
    bits.length = held + 8 * t.remaining ∧
    (width ≤ 32 → ((∃ n u, readBits order width t = .ok n u) ↔ width ≤ held + 8 * t.remaining)) ∧
    (∀ n u, readBits order width t = .ok n u →
      n = order.number (bits.take width) ∧ u.bitsAhead order = bits.drop width ∧
        u.position = t.position + (width - held + 7) / 8 ∧ u.source = t.source ∧
        u.window = t.window) ∧
    (∀ e u, readBits order width t = .error e u → u = t) ∧
    (32 < width → readBits order width t = .error (.bitWidth width) t) ∧
    ∀ first second, first + second = width → width ≤ 32 → ∀ n u,
      readBits order width t = .ok n u ↔
        ∃ a v b, readBits order first t = .ok a v ∧ readBits order second v = .ok b u ∧
          n = joinBits order a first b second := by
  intro t held bits
  have start : Partway s s := partway_self (aligned ▸ PendingBits.partial_none)
  have partway : Partway s t := Action.runAll_keeps_partway legible reads start
  have legible' := partway.legible legible
  have pending := partway.pending
  have size : bits.length = held + 8 * t.remaining := length_bitsAhead order legible'.within
  refine ⟨⟨pending.few, pending.small⟩, size, ?_, ?_, ?_, fun wide => readBits_of_wide wide t, ?_⟩
  · intro narrow
    rw [← size]
    constructor
    · rintro ⟨n, u, read⟩
      exact (enough_of_readBits legible' pending read).2
    · intro enough
      obtain ⟨u, read, -⟩ := readBits_of_enough legible' pending narrow enough
      exact ⟨_, u, read⟩
  · intro n u read
    obtain ⟨narrow, enough⟩ := enough_of_readBits legible' pending read
    obtain ⟨_, again, ahead, place, _, _, -, rfl⟩ :=
      readBits_of_enough legible' pending narrow enough
    cases read.symm.trans again
    exact ⟨rfl, ahead, place, rfl, rfl⟩
  · intro e u failed
    exact eq_of_readBits_error legible' pending failed
  · rintro first second rfl narrow
    exact readBits_add legible' pending narrow

/-- Of the byte B2 the first three bits and the last two are read, and between them the byte 0F. -/
def mixedReads : Stream :=
  Action.runAll [.readBits .high 3, .readInt ⟨1, false, .little⟩, .readBits .low 2]
    (.onSource (.ofFile [0xB2, 0x0F, 0xA5] false 4096))

theorem readBits_reads_bitsAhead_mixedReads :
    mixedReads.cursor = ⟨.root, 2, ⟨0b100, 3⟩⟩ ∧
      (∃ u, Stream.readBits .high 7 mixedReads = .ok 0b1001010 u ∧ u.position = 3) ∧
      ∃ e, Stream.readBits .high 12 mixedReads = .error e mixedReads := by
  have legible := Stream.legible_ofFile (show [0xB2, 0x0F, 0xA5].length ≤ 4096 by decide) false
  have reads : ∀ request ∈ ([.readBits .high 3, .readInt ⟨1, false, .little⟩, .readBits .low 2] :
      List Action), request.ReadSide := by
    simp [Action.ReadSide]
  have answers := fun width => readBits_reads_bitsAhead legible rfl reads .high width
  refine ⟨by decide, ?_, ?_⟩
  · obtain ⟨-, -, there, known, -⟩ := answers 7
    obtain ⟨n, u, read⟩ := (there (by decide)).mpr (by decide)
    obtain ⟨number, -, place, -⟩ := known n u read
    have value : n = 0b1001010 := number.trans (by decide)
    exact ⟨u, value ▸ read, place.trans (by decide)⟩
  · obtain ⟨-, -, there, -, refused, -⟩ := answers 12
    cases result : Stream.readBits .high 12 mixedReads with
    | ok n u => exact absurd ((there (by decide)).mp ⟨n, u, result⟩) (by decide)
    | error e u =>
      obtain rfl : u = mixedReads := refused e u result
      exact ⟨e, rfl⟩

end PackageAssets
