import PackageAssets.Proofs.Stream.Twins
import PackageAssets.Stream.Session

/-!
# The read side of a stream

On windows that show the same bytes every operation that does not write yields
the same, failures included, and leaves the streams at the same byte with the
same pending bits. Only what tells where the window lies differs.
-/
namespace PackageAssets

namespace Stream

/-- Both runs yield the same, or fail alike, and leave streams that stand at the same byte. -/
abbrev Agree {ε α : Type} (v w : Stream) :
    EStateM.Result ε Stream α → EStateM.Result ε Stream α → Prop :=
  InStep (fun _ => True) (Beside 0 v w) (Equally (Beside 0 v w))

variable {v w s t : Stream}

/-! ### Positions -/

theorem rewind_agree (beside : Beside 0 v w s t) (count : Nat) :
    Agree v w (rewind count s) (rewind count t) := by
  rw [rewind, rewind, beside.position_same]
  by_cases back : count ≤ t.position
  · rw [if_pos back, if_pos back]
    exact .ok ⟨rfl, beside.goTo _⟩
  · rw [if_neg back, if_neg back]
    exact .error trivial beside

theorem alignBits_agree (beside : Beside 0 v w s t) : Agree v w (alignBits s) (alignBits t) :=
  .ok ⟨rfl, beside.withPending .none⟩

theorem keepPosition_agree {α : Type} (beside : Beside 0 v w s t) {step : StreamM α}
    (run : Agree v w (step s) (step t)) :
    Agree v w (keepPosition step s) (keepPosition step t) := by
  unfold keepPosition
  rw [beside.position_same]
  generalize step s = left at run ⊢
  generalize step t = right at run ⊢
  cases run with
  | ok together => exact .ok ⟨together.1, together.2.goTo _⟩
  | error known together => exact .error known (together.goTo _)

section Reads

variable (twins : Twins 0 v w) (beside : Beside 0 v w s t)

include twins beside

theorem length_same : s.length = t.length := (beside.length_eq twins).trans (Nat.zero_add _)

theorem Takes.agree {α : Type} {step : StreamM α} {width : Nat} {made : List UInt8 → α}
    (takes : Takes step width made) : Agree v w (step s) (step t) :=
  (takes.inStep twins beside).weaken fun _ _ => trivial

theorem contents_agree : Agree v w (contents s) (contents t) :=
  keepPosition_agree beside ((goTo_inStep beside 0).next fun _ _ _ beside =>
    readRemaining_inStep twins beside)

theorem readIntOrZero_agree (format : IntFormat) :
    Agree v w (readIntOrZero format s) (readIntOrZero format t) := by
  have run := (takes_readInt format).agree twins beside
  unfold readIntOrZero
  generalize readInt format s = left at run ⊢
  generalize readInt format t = right at run ⊢
  cases run with
  | ok together => exact .ok together
  | error _ together => exact .ok ⟨rfl, together⟩

theorem readTextFixed_agree (count : Nat) :
    Agree v w (readTextFixed count s) (readTextFixed count t) :=
  ((takes_readExact count).agree twins beside).next fun _ _ _ beside => .pure beside _

/-! ### Bits -/

theorem readByte_agree : Agree v w (readByte s) (readByte t) :=
  ((takes_readExact 1).agree twins beside).next fun _ _ _ beside => .pure beside _

theorem loadBits_agree : Agree v w (loadBits s) (loadBits t) := by
  have run := readByte_agree twins beside
  unfold loadBits
  rw [beside.pending_eq]
  by_cases none : t.cursor.pending.count = 0
  · rw [if_pos none, if_pos none]
    generalize readByte s = left at run ⊢
    generalize readByte t = right at run ⊢
    cases run with
    | ok together =>
      obtain ⟨rfl, beside⟩ := together
      exact .ok ⟨rfl, beside.withPending _⟩
    | error known together => exact .error known together
  · rw [if_neg none, if_neg none]
    exact .ok ⟨rfl, beside⟩

theorem gatherBits_agree (order : BitOrder) (rounds wanted gathered held : Nat) :
    Agree v w (gatherBits order rounds wanted gathered held s)
      (gatherBits order rounds wanted gathered held t) := by
  induction rounds generalizing wanted gathered held s t with
  | zero => exact .pure beside gathered
  | succ rounds ih =>
    cases wanted with
    | zero => exact .pure beside gathered
    | succ wanted =>
      refine (loadBits_agree twins beside).next fun pending s t beside => ?_
      have kept (left : PendingBits) :
          Agree v w ((modify (·.withPending left) : StreamM Unit) s)
            ((modify (·.withPending left) : StreamM Unit) t) := .ok ⟨rfl, beside.withPending left⟩
      exact (kept _).next fun _ s t beside => ih beside ..

theorem readBits_agree (order : BitOrder) (width : Nat) :
    Agree v w (readBits order width s) (readBits order width t) := by
  have run := gatherBits_agree twins beside order width width 0 0
  unfold readBits
  by_cases wide : BitOrder.widest < width
  · rw [if_pos wide, if_pos wide]
    exact .error trivial beside
  · rw [if_neg wide, if_neg wide]
    generalize gatherBits order width width 0 0 s = left at run ⊢
    generalize gatherBits order width width 0 0 t = right at run ⊢
    cases run with
    | ok together => exact .ok together
    | error known together =>
      -- the cursors are put back as they were before the field, and those stood at one byte
      cases together
      cases beside with
      | intro position pending => exact .error known (.intro position pending)

/-! ### The plain interface -/

omit twins beside in
theorem lift_agree {α : Type} {step : StreamM α} (run : Agree v w (step s) (step t)) :
    Agree v w (Standard.lift step s) (Standard.lift step t) := by
  unfold Standard.lift
  generalize step s = left at run ⊢
  generalize step t = right at run ⊢
  cases run with
  | ok together => exact .ok together
  | error known together => exact .error known together

theorem read_agree (count : Nat) : Agree v w (Standard.read count s) (Standard.read count t) :=
  lift_agree (readBytes_inStep twins beside count)

theorem readFull_agree (count : Nat) :
    Agree v w (Standard.readFull count s) (Standard.readFull count t) := by
  refine (read_agree twins beside count).next fun bytes s t beside => ?_
  exact .ite (fun _ => .stop trivial beside) fun _ => .pure beside bytes

theorem readToEnd_agree : Agree v w (Standard.readToEnd s) (Standard.readToEnd t) := by
  rw [Standard.readToEnd, Standard.readToEnd, beside.remaining_eq twins]
  exact lift_agree (readBytes_inStep twins beside _)

theorem seek_agree (anchor : Standard.Anchor) (distance : Int) :
    Agree v w (Standard.seek anchor distance s) (Standard.seek anchor distance t) := by
  unfold Standard.seek
  rw [length_same twins beside, beside.position_same]
  dsimp only
  split
  · exact .ok ⟨rfl, beside.goTo _⟩
  · exact .error trivial beside

/-! ### Views -/

theorem slice_agree (lower upper : Edge) :
    (∃ e, s.slice lower upper = .error e ∧ t.slice lower upper = .error e) ∨
      ∃ start stop, start ≤ stop ∧ stop ≤ t.length ∧
        s.slice lower upper = .ok (s.part start stop) ∧
        t.slice lower upper = .ok (t.part start stop) := by
  rw [slice_eq, slice_eq, length_same twins beside]
  generalize resolve lower upper t.length = range
  dsimp only
  by_cases outside : range.2 < range.1 ∨ t.length < range.2
  · rw [if_pos outside, if_pos outside]
    exact Or.inl ⟨_, rfl, rfl⟩
  · rw [if_neg outside, if_neg outside]
    exact Or.inr ⟨range.1, range.2, by omega, by omega, rfl, rfl⟩

/-- A view of the next bytes, or a refusal. A view of nothing behind the end is refused too. -/
theorem readStream_agree (count : Nat) :
    InStep (fun _ => True) (Beside 0 v w)
      (fun view view' after after' => Beside 0 v w after after' ∧
        ∃ start stop, start ≤ stop ∧ stop ≤ t.length ∧ view = s.part start stop ∧
          view' = t.part start stop)
      (readStream count s) (readStream count t) := by
  unfold readStream
  rw [beside.remaining_eq twins, beside.position_same]
  by_cases short : t.remaining < count
  · rw [if_pos short, if_pos short]
    exact .error trivial beside
  · rw [if_neg short, if_neg short]
    rcases slice_agree twins beside (.included t.position) (.excluded (t.position + count)) with
      ⟨e, left, right⟩ | ⟨start, stop, ordered, inside, left, right⟩
    · rw [left, right]
      exact .error trivial beside
    · rw [left, right]
      exact .ok ⟨beside.goTo _, start, stop, ordered, inside, rfl, rfl⟩

end Reads

end Stream

/-! ### Operations -/

/-- The action does not write, and does not tell where the window lies. -/
def Action.ReadSide : Action → Prop
  | .isSlice => False
  | .window => False
  | .describe => False
  | .writeBytes _ => False
  | .writeInt .. => False
  | .writeText _ => False
  | .writeTextFixed .. => False
  | .writeToAlign .. => False
  | .standardWrite _ => False
  | .standardWriteAll _ => False
  | _ => True

/-- The new cursor is a view of what the acting one shows. -/
def Derivation.ReadSide : Derivation → Prop
  | .slice .. => True
  | .sliceRemaining => True
  | .readStream _ => True
  | _ => False

/-- An operation of the read side of a cursor. -/
inductive Op.ReadSide : Op → Prop where
  | act {action : Action} (reads : action.ReadSide) : ReadSide (.act action)
  | make {derivation : Derivation} (reads : derivation.ReadSide) : ReadSide (.make derivation)
  | keepPosition {ops : List Op} (all : ∀ op ∈ ops, ReadSide op) : ReadSide (.keepPosition ops)

section Actions

variable {α : Type} {v w s t : Stream}

theorem Answer.ofResult_same {x y : EStateM.Result IoError Stream α} (answer : α → Answer)
    (run : Stream.Agree v w x y) :
    (ofResult answer x).1 = (ofResult answer y).1 ∧
      Stream.Beside 0 v w (ofResult answer x).2 (ofResult answer y).2 := by
  cases run with
  | ok together => exact ⟨congrArg answer together.1, together.2⟩
  | error _ together => exact ⟨rfl, together⟩

theorem Answer.ofStandard_same {x y : EStateM.Result StandardError Stream α} (answer : α → Answer)
    (run : Stream.Agree v w x y) :
    (ofStandard answer x).1 = (ofStandard answer y).1 ∧
      Stream.Beside 0 v w (ofStandard answer x).2 (ofStandard answer y).2 := by
  cases run with
  | ok together => exact ⟨congrArg answer together.1, together.2⟩
  | error _ together => exact ⟨rfl, together⟩

open PackageAssets.Stream in
/-- An action of the read side has one answer, and leaves the streams at one byte. -/
theorem Action.run_same (twins : Twins 0 v w) (beside : Beside 0 v w s t) {action : Action}
    (reads : action.ReadSide) :
    (action.run s).1 = (action.run t).1 ∧ Beside 0 v w (action.run s).2 (action.run t).2 := by
  have length := length_same twins beside
  have remaining := beside.remaining_eq twins
  cases action with
  | position => exact ⟨congrArg Answer.ofNat beside.position_same, beside⟩
  | length => exact ⟨congrArg Answer.ofNat length, beside⟩
  | remaining => exact ⟨congrArg Answer.ofNat remaining, beside⟩
  | availableBits => exact ⟨congrArg (Answer.ofNat ∘ PendingBits.count) beside.pending_eq, beside⟩
  | atEnd => exact ⟨congrArg (Answer.truth <| decide <| · = 0) remaining, beside⟩
  | setPosition position => exact Answer.ofResult_same _ (goTo_inStep beside position)
  | skip count => exact Answer.ofResult_same _ (skip_inStep beside count)
  | rewind count => exact Answer.ofResult_same _ (rewind_agree beside count)
  | alignBits => exact Answer.ofResult_same _ (alignBits_agree beside)
  | readBytes count => exact Answer.ofResult_same _ (readBytes_inStep twins beside count)
  | readExact count => exact Answer.ofResult_same _ ((takes_readExact count).agree twins beside)
  | readVector count => exact Answer.ofResult_same _ (readBytes_inStep twins beside count)
  | readRemaining => exact Answer.ofResult_same _ (readRemaining_inStep twins beside)
  | contents => exact Answer.ofResult_same _ (contents_agree twins beside)
  | readInt format => exact Answer.ofResult_same _ ((takes_readInt format).agree twins beside)
  | readIntOrZero format => exact Answer.ofResult_same _ (readIntOrZero_agree twins beside format)
  | readTextFixed count => exact Answer.ofResult_same _ (readTextFixed_agree twins beside count)
  | readText => exact Answer.ofResult_same _ (readText_inStep twins beside)
  | readBits order width => exact Answer.ofResult_same _ (readBits_agree twins beside order width)
  | standardRead count => exact Answer.ofStandard_same _ (read_agree twins beside count)
  | standardReadFull count => exact Answer.ofStandard_same _ (readFull_agree twins beside count)
  | standardReadToEnd => exact Answer.ofStandard_same _ (readToEnd_agree twins beside)
  | standardFlush => exact ⟨rfl, beside⟩
  | standardSeek anchor distance =>
    exact Answer.ofStandard_same _ (seek_agree twins beside anchor distance)
  | isSlice | window | describe | writeBytes | writeInt | writeText | writeTextFixed
  | writeToAlign | standardWrite | standardWriteAll => exact reads.elim

end Actions

end PackageAssets
