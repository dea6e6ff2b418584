import PackageAssets.Proofs.Stream.Ends
import PackageAssets.Proofs.Stream.Touches

/-!
# Operations that are done whole or not at all

The checked readers, the moves that can be refused, single writes and the views
leave everything as it was when they fail: each finds out that it fails before it
changes anything, or puts back the position and the pending bits that it had. A
number is read as zero in the same case, and nothing moves then either.
-/
namespace PackageAssets

variable {ε σ α β : Type}

/-- A step that fails leaves everything as it was. -/
def Restores (step : EStateM ε σ α) : Prop := ∀ s e t, step s = .error e t → t = s

/-- What is made of a result cannot fail. -/
theorem Restores.map {step : EStateM ε σ α} (restores : Restores step) (made : α → β) :
    Restores (step >>= fun a => pure (made a)) := by
  intro s e t failed
  cases ran : step s with
  | ok a u =>
    rw [bind_of_ok ran] at failed
    cases failed
  | error e' u =>
    rw [bind_of_error ran] at failed
    cases failed
    exact restores s e t ran

namespace Stream

/-! ### Reads -/

theorem restores_readBytes (count : Nat) : Restores (readBytes count) := by
  intro s e t failed
  unfold readBytes at failed
  dsimp only at failed
  split at failed
  · cases failed
  · split at failed
    · cases failed
    · cases failed
      rfl

theorem restores_readExact (count : Nat) : Restores (readExact count) := by
  intro s e t failed
  unfold readExact at failed
  cases read : readBytes count s with
  | error e' u =>
    rw [read] at failed
    cases failed
    exact restores_readBytes count s e t read
  | ok bytes u =>
    obtain ⟨position, left⟩ := left_readBytes count s
    rw [read] at failed left
    obtain rfl : u = s.seek position := left
    dsimp only at failed
    split at failed
    · cases failed
    · cases failed
      rfl

theorem restores_readInt (format : IntFormat) : Restores (readInt format) :=
  (restores_readExact format.width).map format.decode

theorem restores_readTextFixed (count : Nat) : Restores (readTextFixed count) :=
  (restores_readExact count).map fun bytes => Text.ofBytes (Text.untilZero bytes)

theorem restores_readStream (count : Nat) : Restores (readStream count) := by
  intro s e t failed
  unfold readStream at failed
  split at failed
  · cases failed
    rfl
  · split at failed
    · cases failed
    · cases failed
      rfl

/-- The number that is read, or zero, and then nothing has moved. -/
theorem readIntOrZero_eq (format : IntFormat) (s : Stream) :
    readIntOrZero format s = match readInt format s with
      | .ok n t => .ok n t
      | .error _ _ => .ok 0 s := by
  unfold readIntOrZero
  cases read : readInt format s with
  | ok n t => rfl
  | error e t =>
    obtain rfl := restores_readInt format s e t read
    rfl

/-! ### Bits -/

section Bits

variable {source : Source}

theorem Moves.keepsSource {step : StreamM α} (moves : Moves step) :
    Keeps (fun t : Stream => t.source = source) step := by
  intro s same
  obtain ⟨position, left⟩ := moves.left s
  refine .of_leftBy ?_
  rw [left]
  exact same

theorem keepsSource_loadBits : Keeps (fun t : Stream => t.source = source) loadBits := by
  intro s same
  have byte : Moves readByte := fun s => leaves_bind (moves_readExact 1 s) fun _ => keeps_pure _
  unfold loadBits
  split
  · have ends := byte.keepsSource s same
    cases read : readByte s with
    | ok b t =>
      have kept : t.source = source := ends.of_ok read
      exact .ok kept
    | error e t => exact .error (ends.of_error read)
  · exact .ok same

theorem keepsSource_gatherBits (order : BitOrder) (rounds wanted gathered held : Nat) :
    Keeps (fun t : Stream => t.source = source) (gatherBits order rounds wanted gathered held) := by
  induction rounds generalizing wanted gathered held with
  | zero => exact keeps_pure gathered
  | succ rounds ih =>
    cases wanted with
    | zero => exact keeps_pure gathered
    | succ wanted =>
      refine leaves_bind keepsSource_loadBits fun pending => ?_
      exact leaves_bind (fun t same => .ok same) fun _ => ih _ _ _

/-- Bytes are taken for bits before it is known that there are too few; the cursor is put back. -/
theorem restores_readBits (order : BitOrder) (width : Nat) : Restores (readBits order width) := by
  intro s e t failed
  unfold readBits at failed
  split at failed
  · cases failed
    rfl
  · split at failed
    · cases failed
    case h_2 stopped =>
      cases failed
      have same := (keepsSource_gatherBits order width width 0 0 s rfl).of_error stopped
      exact congrArg (Stream.mk · s.cursor) same

end Bits

/-! ### Moves and writes -/

theorem restores_rewind (count : Nat) : Restores (rewind count) := by
  intro s e t failed
  unfold rewind at failed
  split at failed
  · cases failed
  · cases failed
    rfl

theorem restores_writeBytes (bytes : List UInt8) : Restores (writeBytes bytes) := by
  intro s e t failed
  rw [writeBytes_eq] at failed
  split at failed
  · cases failed
    rfl
  · split at failed
    · cases failed
    · cases failed
      rfl

theorem Standard.restores_seek (anchor : Anchor) (distance : Int) :
    Restores (Standard.seek anchor distance) := by
  intro s e t failed
  unfold Standard.seek at failed
  dsimp only at failed
  split at failed
  · cases failed
  · cases failed
    rfl

end Stream

/-! ### Operations -/

/-- The operation failed. -/
inductive Answer.Failure : Answer → Prop where
  | failed (e : IoError) : Failure (.failed e)
  | failedStandard (e : StandardError) : Failure (.failedStandard e)

/-- What is done to a cursor whole or not at all. -/
inductive Action.Guarded : Action → Prop where
  | rewind (count : Nat) : Guarded (.rewind count)
  | readExact (count : Nat) : Guarded (.readExact count)
  | readInt (format : IntFormat) : Guarded (.readInt format)
  | readTextFixed (count : Nat) : Guarded (.readTextFixed count)
  | readBits (order : BitOrder) (width : Nat) : Guarded (.readBits order width)
  | writeBytes (bytes : List UInt8) : Guarded (.writeBytes bytes)
  | writeInt (format : IntFormat) (value : Int) : Guarded (.writeInt format value)
  | writeTextFixed (text : String) (count : Nat) : Guarded (.writeTextFixed text count)
  | standardSeek (anchor : Stream.Standard.Anchor) (distance : Int) :
    Guarded (.standardSeek anchor distance)

/-- Operations that are done whole or not at all. -/
inductive Op.Guarded : Op → Prop where
  | act {action : Action} (guarded : action.Guarded) : Guarded (.act action)
  | slice (lower upper : Edge) : Guarded (.make (.slice lower upper))
  | sliceRemaining : Guarded (.make .sliceRemaining)
  | readStream (count : Nat) : Guarded (.make (.readStream count))

section Results

variable {s : Stream}

theorem Answer.left_of_failure {step : StreamM α} {answer : α → Answer} (restores : Restores step)
    (succeeds : ∀ a, ¬(answer a).Failure) (failed : (ofResult answer (step s)).1.Failure) :
    (ofResult answer (step s)).2 = s := by
  cases ran : step s with
  | ok a t =>
    rw [ran] at failed
    exact absurd failed (succeeds a)
  | error e t => exact restores s e t ran

theorem Answer.left_of_standardFailure {step : StandardM α} {answer : α → Answer}
    (restores : Restores step) (succeeds : ∀ a, ¬(answer a).Failure)
    (failed : (ofStandard answer (step s)).1.Failure) : (ofStandard answer (step s)).2 = s := by
  cases ran : step s with
  | ok a t =>
    rw [ran] at failed
    exact absurd failed (succeeds a)
  | error e t => exact restores s e t ran

theorem Action.Guarded.left_of_failure {action : Action} (guarded : action.Guarded)
    (failed : (action.run s).1.Failure) : (action.run s).2 = s := by
  cases guarded with
  | rewind count =>
    exact Answer.left_of_failure (Stream.restores_rewind count) (fun _ => nofun) failed
  | readExact count =>
    exact Answer.left_of_failure (Stream.restores_readExact count) (fun _ => nofun) failed
  | readInt format =>
    exact Answer.left_of_failure (Stream.restores_readInt format) (fun _ => nofun) failed
  | readTextFixed count =>
    exact Answer.left_of_failure (Stream.restores_readTextFixed count) (fun _ => nofun) failed
  | readBits order width =>
    exact Answer.left_of_failure (Stream.restores_readBits order width) (fun _ => nofun) failed
  | writeBytes bytes =>
    exact Answer.left_of_failure (Stream.restores_writeBytes bytes) (fun _ => nofun) failed
  | writeInt format value =>
    exact Answer.left_of_failure (Stream.restores_writeBytes _) (fun _ => nofun) failed
  | writeTextFixed text count =>
    exact Answer.left_of_failure (Stream.restores_writeBytes _) (fun _ => nofun) failed
  | standardSeek anchor distance =>
    exact Answer.left_of_standardFailure (Stream.Standard.restores_seek anchor distance)
      (fun _ => nofun) failed

end Results

namespace Session

variable {s : Session} {number : Nat}

theorem putStream_same {v : Stream} (found : s.stream? number = some v) :
    s.putStream number v = s := by
  obtain ⟨p, known, home, here⟩ := of_stream? found
  obtain ⟨inside, there⟩ := List.getElem?_eq_some_iff.mp known
  have sources := sources_putStream found rfl
  have cursors : s.cursors.set number { p with cursor := v.cursor } = s.cursors := by
    rw [← here, ← there]
    exact List.set_getElem_self inside
  rw [putStream_eq known] at sources ⊢
  exact congr (congrArg Session.mk sources) cursors

theorem failure_of_report {answer : Answer} (failed : (s.report number answer).1.Failure) :
    answer.Failure := by
  unfold report at failed
  split at failed
  · exact failed
  · cases failed

theorem slice_of_failure (number home : Nat) (v : Stream) (lower upper : Edge)
    (failed : (s.make number home v (.slice lower upper)).1.Failure) :
    (s.make number home v (.slice lower upper)).2 = s := by
  unfold make at failed ⊢
  dsimp only at failed ⊢
  cases view : v.slice lower upper with
  | ok view' =>
    rw [view] at failed
    cases failed
  | error e => rfl

theorem readStream_of_failure {v : Stream} (found : s.stream? number = some v) {home count : Nat}
    (failed : (s.make number home v (.readStream count)).1.Failure) :
    (s.make number home v (.readStream count)).2 = s := by
  unfold make at failed ⊢
  dsimp only at failed ⊢
  cases view : Stream.readStream count v with
  | ok view' after =>
    rw [view] at failed
    cases failed
  | error e after =>
    obtain rfl := Stream.restores_readStream count v e after view
    exact putStream_same found

theorem answer_of_failure {op : Op} (guarded : op.Guarded)
    (failed : (answer number op s).1.Failure) : (answer number op s).2 = s := by
  cases op with
  | act action =>
    rw [answer] at failed ⊢
    cases guarded with
    | act guarded =>
      cases found : s.stream? number with
      | none => rfl
      | some v =>
        rw [found] at failed
        dsimp only at failed ⊢
        rw [guarded.left_of_failure failed]
        exact putStream_same found
  | make derivation =>
    rw [answer] at failed ⊢
    cases known : s.cursors[number]? with
    | none => rfl
    | some p =>
      cases found : s.stream? number with
      | none => rfl
      | some v =>
        rw [known, found] at failed
        cases guarded with
        | slice lower upper => exact slice_of_failure number p.source v lower upper failed
        | sliceRemaining =>
          exact slice_of_failure number p.source v (.included v.position) .unbounded failed
        | readStream count => exact readStream_of_failure found failed
  | copyFrom other => cases guarded
  | keepPosition ops => cases guarded

theorem report_of_some {v : Stream} (found : s.stream? number = some v) (answer : Answer) :
    s.report number answer = (answer, v.cursor.position, v.cursor.pending.count) := by
  obtain ⟨p, known, -, here⟩ := of_stream? found
  rw [report, known, ← here]

theorem step_act_of_none (found : s.stream? number = none) (action : Action) :
    s.step number (.act action) = (s.report number .noCursor, s) := by
  rw [step, answer, found]

theorem step_act_of_some {v : Stream} (found : s.stream? number = some v) (action : Action) :
    s.step number (.act action) =
      ((s.putStream number (action.run v).2).report number (action.run v).1,
        s.putStream number (action.run v).2) := by
  rw [step, answer, found]

/--
When a guarded operation of a cursor fails, the session is as it was before: its sources, and each
cursor with its window, its position and its pending bits. A number that is read or zero is the one
that the checked read yields, and if that fails, zero, and then nothing has changed either.
-/
theorem failure_changes_nothing (s : Session) (number : Nat) :
    (∀ op : Op, op.Guarded → (s.step number op).1.1.Failure → (s.step number op).2 = s) ∧
    ∀ format : IntFormat,
      let checked := s.step number (.act (.readInt format))
      let plain := s.step number (.act (.readIntOrZero format))
      (¬checked.1.1.Failure → plain = checked) ∧
      (checked.1.1.Failure → plain = ((.number 0, checked.1.2), s)) := by
  constructor
  · intro op guarded failed
    exact answer_of_failure guarded (failure_of_report failed)
  · intro format checked plain
    dsimp only [checked, plain]
    cases found : s.stream? number with
    | none =>
      rw [step_act_of_none found, step_act_of_none found]
      exact ⟨fun _ => rfl, fun failed => nomatch failure_of_report failed⟩
    | some v =>
      rw [step_act_of_some found, step_act_of_some found]
      dsimp only [Action.run]
      rw [Stream.readIntOrZero_eq]
      cases read : Stream.readInt format v with
      | ok n t => exact ⟨fun _ => rfl, fun failed => nomatch failure_of_report failed⟩
      | error e t =>
        obtain rfl := Stream.restores_readInt format v e t read
        dsimp only [Answer.ofResult]
        rw [putStream_same found, report_of_some found, report_of_some found]
        exact ⟨fun succeeded => absurd (.failed e) succeeded, fun _ => rfl⟩

/-- Three bytes, and a view of the second one with three pending bits. -/
def secondOfThree : Session :=
  ⟨[.ofBytes [1, 2, 3]], [⟨0, .root⟩, ⟨0, ⟨.slice 1 2, 0, ⟨5, 3⟩⟩⟩]⟩

theorem failure_changes_nothing_secondOfThree :
    secondOfThree.step 1 (.act (.readBits .high 12)) =
        ((.failed (.notEnough 1 0), 0, 3), secondOfThree) ∧
      secondOfThree.step 1 (.act (.writeBytes [7, 7])) =
        ((.failed (.outOfBounds 0 2 1), 0, 3), secondOfThree) ∧
      secondOfThree.step 1 (.act (.readIntOrZero ⟨2, false, .big⟩)) =
        ((.number 0, 0, 3), secondOfThree) := by
  obtain ⟨guarded, zero⟩ := failure_changes_nothing secondOfThree 1
  refine ⟨Prod.ext rfl ?_, Prod.ext rfl ?_, ?_⟩
  · exact guarded (.act (.readBits .high 12)) (.act (.readBits .high 12)) (.failed _)
  · exact guarded (.act (.writeBytes [7, 7])) (.act (.writeBytes [7, 7])) (.failed _)
  · exact (zero ⟨2, false, .big⟩).2 (.failed (.notEnough 2 1))

end Session

end PackageAssets
