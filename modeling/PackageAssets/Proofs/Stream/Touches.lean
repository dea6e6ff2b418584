import PackageAssets.Proofs.Stream.Overwrite
import PackageAssets.Proofs.Stream.Requests
import PackageAssets.Stream.Session

/-!
# Work inside a window

Whatever a step on a stream comes to, it leaves the window where it was and
makes the source no shorter. Through a slice of a source in memory it leaves the
length of the source alone, and every byte outside the slice. Only `writeBytes`
has to be looked at for that: each other step is made of it and of steps that do
not write.
-/
namespace PackageAssets

namespace Source

def InMemory (s : Source) : Prop := ∃ room, s.storage = .memory room

/-- The sources differ at most in the bytes from `start` to `stop`. -/
structure SameOutside (start stop : Nat) (s t : Source) : Prop where
  length : t.length = s.length
  bytes : ∀ i, i < start ∨ stop ≤ i → t.content[i]? = s.content[i]?

theorem sameOutside_refl (start stop : Nat) (s : Source) : SameOutside start stop s s :=
  ⟨rfl, fun _ _ => rfl⟩

theorem SameOutside.trans {start stop : Nat} {s t u : Source} (first : SameOutside start stop s t)
    (later : SameOutside start stop t u) : SameOutside start stop s u :=
  ⟨later.length.trans first.length, fun i outside =>
    (later.bytes i outside).trans (first.bytes i outside)⟩

/-- A write puts the bytes in their place, unless there are none, and leaves the source where it is
stored. -/
theorem of_writeAt {s t : Source} {position : Nat} {bytes : List UInt8}
    (written : s.writeAt position bytes = .ok t) :
    (t.content = overwrite s.content position bytes ∨ bytes = [] ∧ t.content = s.content) ∧
      (s.InMemory ∧ t.InMemory ∨ t.storage = s.storage) := by
  obtain ⟨content, storage⟩ := s
  cases storage with
  | memory room =>
    simp only [writeAt] at written
    split at written
    · cases written
    split at written
    · cases written
    · cases written
      exact ⟨.inl rfl, .inl ⟨⟨_, rfl⟩, ⟨_, rfl⟩⟩⟩
  | file writable furthest =>
    simp only [writeAt] at written
    split at written
    · cases written
    split at written
    case isTrue nothing =>
      cases written
      exact ⟨.inr ⟨nothing, rfl⟩, .inr rfl⟩
    split at written
    · cases written
      exact ⟨.inl rfl, .inr rfl⟩
    · cases written
  | directory => cases written

/-- Memory takes what ends inside the longest vector. -/
theorem writeAt_memory {s : Source} {room position : Nat} {bytes : List UInt8}
    (inMemory : s.storage = .memory room) (short : position + bytes.length ≤ longestVector) :
    s.writeAt position bytes = .ok ⟨overwrite s.content position bytes,
      .memory (grown room (position + bytes.length))⟩ := by
  have counted : Count.add? position bytes.length = some (position + bytes.length) :=
    Count.add?_eq_some.mpr ⟨rfl, Nat.lt_of_le_of_lt short (by decide)⟩
  simp only [writeAt, inMemory, counted, Nat.not_lt.mpr short, if_false]

/-- Memory takes nothing else; the end of a write need not even be a count. -/
theorem writeAt_memory_long {s : Source} {room position : Nat} {bytes : List UInt8}
    (inMemory : s.storage = .memory room) (long : longestVector < position + bytes.length) :
    ∃ e, s.writeAt position bytes = .error e ∧
      (Count.bound ≤ position + bytes.length → e = .positionOverflow) := by
  by_cases counted : position + bytes.length < Count.bound
  · simp only [writeAt, inMemory, Count.add?, counted, long, if_true]
    exact ⟨_, rfl, fun uncounted => absurd counted (Nat.not_lt.mpr uncounted)⟩
  · simp only [writeAt, inMemory, Count.add?, counted, if_false]
    exact ⟨_, rfl, fun _ => rfl⟩

/-- A write makes a source no shorter and leaves it in memory. -/
theorem grows_of_writeAt {s t : Source} {position : Nat} {bytes : List UInt8}
    (written : s.writeAt position bytes = .ok t) :
    s.length ≤ t.length ∧ (s.InMemory → t.InMemory) := by
  obtain ⟨content, stored⟩ := of_writeAt written
  constructor
  · rcases content with put | ⟨-, same⟩
    · simp only [length, put, length_overwrite]
      exact Nat.le_max_right ..
    · exact Nat.le_of_eq (congrArg List.length same.symm)
  · rintro ⟨room, inMemory⟩
    rcases stored with ⟨-, stays⟩ | same
    · exact stays
    · exact ⟨room, same.trans inMemory⟩

/-- In memory, a write that stays in its place changes nothing else. -/
theorem sameOutside_of_writeAt {s t : Source} {position start stop : Nat} {bytes : List UInt8}
    (inMemory : s.InMemory) (written : s.writeAt position bytes = .ok t)
    (behind : start ≤ position) (ahead : position + bytes.length < Count.bound →
      position + bytes.length ≤ stop)
    (inside : stop ≤ s.length) : SameOutside start stop s t := by
  obtain ⟨room, inMemory⟩ := inMemory
  simp only [writeAt, inMemory] at written
  split at written
  · cases written
  case h_2 last counted =>
    split at written
    · cases written
    cases written
    have fits := ahead (by
      rw [Count.add?_eq_some] at counted
      omega)
    constructor
    · simp only [length, length_overwrite]
      exact Nat.max_eq_right (Nat.le_trans fits inside)
    · intro i outside
      exact getElem?_overwrite_outside _ _ _ (Nat.le_trans fits inside) (by omega)

end Source

namespace Stream

/-- The stream `t` may be left by work on `s`. -/
structure Touches (s t : Stream) : Prop where
  window : t.window = s.window
  grows : s.source.length ≤ t.source.length
  inMemory : s.source.InMemory → t.source.InMemory
  outside : s.source.InMemory → ∀ start stop, s.window = .slice start stop →
    stop ≤ s.source.length → s.source.SameOutside start stop t.source

variable {s t u : Stream}

theorem touches_of_same (source : t.source = s.source) (window : t.window = s.window) :
    s.Touches t where
  window := window
  grows := Nat.le_of_eq (congrArg Source.length source.symm)
  inMemory := source ▸ id
  outside _ start stop _ _ := source ▸ Source.sameOutside_refl start stop s.source

theorem touches_refl (s : Stream) : s.Touches s := touches_of_same rfl rfl

theorem Touches.trans (first : s.Touches t) (later : t.Touches u) : s.Touches u where
  window := later.window.trans first.window
  grows := Nat.le_trans first.grows later.grows
  inMemory := later.inMemory ∘ first.inMemory
  outside inMemory start stop window inside :=
    (first.outside inMemory start stop window inside).trans
      (later.outside (first.inMemory inMemory) start stop (first.window.trans window)
        (Nat.le_trans inside first.grows))

theorem Touches.seek (touched : s.Touches t) (position : Nat) : s.Touches (t.seek position) :=
  touched.trans (touches_of_same rfl rfl)

theorem Touches.withPending (touched : s.Touches t) (pending : PendingBits) :
    s.Touches (t.withPending pending) := touched.trans (touches_of_same rfl rfl)

/-- Whatever comes of the step, it works inside the window. -/
def Respects {ε α : Type} (step : EStateM ε Stream α) : Prop :=
  ∀ s : Stream, s.Touches (leftBy (step s))

section Steps

variable {ε α β : Type}

theorem Respects.of_ok {step : EStateM ε Stream α} (respects : Respects step) {a : α}
    (done : step s = .ok a t) : s.Touches t := by
  have touched := respects s
  rwa [done] at touched

theorem Respects.of_error {step : EStateM ε Stream α} (respects : Respects step) {e : ε}
    (failed : step s = .error e t) : s.Touches t := by
  have touched := respects s
  rwa [failed] at touched

theorem respects_pure (a : α) : Respects (pure a : EStateM ε Stream α) := touches_refl

theorem respects_throw (e : ε) : Respects (throw e : EStateM ε Stream α) := touches_refl

theorem Respects.bind {step : EStateM ε Stream α} {next : α → EStateM ε Stream β}
    (first : Respects step) (later : ∀ a, Respects (next a)) : Respects (step >>= next) := by
  intro s
  cases done : step s with
  | ok a t =>
    rw [bind_of_ok done]
    exact (first.of_ok done).trans (later a t)
  | error e t =>
    rw [bind_of_error done]
    exact first.of_error done

theorem Respects.map {step : EStateM ε Stream α} (first : Respects step) (f : α → β) :
    Respects (do return f (← step)) := first.bind fun a => respects_pure (f a)

theorem respects_ite {c : Prop} [Decidable c] {x y : EStateM ε Stream α} (left : Respects x)
    (right : Respects y) : Respects (if c then x else y) := by
  split
  · exact left
  · exact right

theorem Respects.keepPosition {step : StreamM α} (inner : Respects step) :
    Respects (keepPosition step) := by
  intro s
  unfold Stream.keepPosition
  cases done : step s with
  | ok a t => exact (inner.of_ok done).seek s.position
  | error e t => exact (inner.of_error done).seek s.position

end Steps

/-! ### Writing -/

/-- A write of `count` bytes at the position would not stay inside a slice. -/
def crosses (s : Stream) (count : Nat) : Bool :=
  match s.window with
  | .root => false
  | .slice start limit => limit < Count.clamp (Count.clamp (start + s.position) + count)

theorem writeBytes_eq (bytes : List UInt8) (s : Stream) :
    writeBytes bytes s =
      if s.crosses bytes.length then
        .error (.outOfBounds s.position (Count.clamp (s.position + bytes.length)) s.length) s
      else match s.source.writeAt s.absolute bytes with
        | .ok source => .ok () { source, cursor := (s.seek (s.position + bytes.length)).cursor }
        | .error e => .error e s := rfl

/-- A write that is done is one access to the source, and moves past the bytes. -/
theorem of_writeBytes {bytes : List UInt8} (written : writeBytes bytes s = .ok () t) :
    s.source.writeAt s.absolute bytes = .ok t.source ∧
      t.cursor = (s.seek (s.position + bytes.length)).cursor := by
  rw [writeBytes_eq] at written
  split at written
  · cases written
  · cases done : s.source.writeAt s.absolute bytes with
    | ok source =>
      rw [done] at written
      cases written
      exact ⟨rfl, rfl⟩
    | error e =>
      rw [done] at written
      cases written

/-- What does not cross the end of a slice stays inside it, or its end is no count. -/
theorem place_of_not_crosses {count start stop : Nat} (window : s.window = .slice start stop)
    (within : ¬s.crosses count = true) :
    start ≤ s.absolute ∧ (s.absolute + count < Count.bound → s.absolute + count ≤ stop) := by
  have place : s.absolute = start + s.position := by rw [absolute, window, Window.base]
  simp only [crosses, window, ← place, decide_eq_true_eq, Nat.not_lt, Count.clamp,
    Count.top] at within
  unfold Count.bound
  omega

theorem respects_writeBytes (bytes : List UInt8) : Respects (writeBytes bytes) := by
  intro s
  rw [writeBytes_eq]
  split
  · exact touches_refl s
  case isFalse within =>
    cases written : s.source.writeAt s.absolute bytes with
    | error e => exact touches_refl s
    | ok source =>
      obtain ⟨grows, stays⟩ := Source.grows_of_writeAt written
      refine ⟨rfl, grows, stays, ?_⟩
      intro inMemory start stop window inside
      obtain ⟨behind, ahead⟩ := place_of_not_crosses window within
      exact Source.sameOutside_of_writeAt inMemory written behind ahead inside

theorem respects_writeByte (b : UInt8) : Respects (writeByte b) := respects_writeBytes [b]

theorem respects_writeText (text : String) : Respects (writeText text) :=
  (respects_writeBytes _).bind fun _ => respects_writeByte 0

theorem respects_writeRepeated (b : UInt8) (count : Nat) : Respects (writeRepeated b count) := by
  induction count with
  | zero => exact respects_pure ()
  | succ count ih => exact (respects_writeByte b).bind fun _ => ih

theorem respects_writeToAlign (alignment : Nat) (b : UInt8) :
    Respects (writeToAlign alignment b) := by
  intro s
  unfold writeToAlign
  split
  · exact touches_refl s
  · exact respects_writeRepeated b _ s

/-! ### Reading -/

theorem respects_readBytes (count : Nat) : Respects (readBytes count) := by
  intro s
  unfold readBytes
  dsimp only
  split
  · exact touches_refl s
  · split
    · exact (touches_refl s).seek _
    · exact touches_refl s

theorem respects_readExact (count : Nat) : Respects (readExact count) := by
  intro s
  unfold readExact
  cases read : readBytes count s with
  | error e t => exact (respects_readBytes count).of_error read
  | ok bytes t =>
    have touched := (respects_readBytes count).of_ok read
    dsimp only
    split
    · exact touched
    · exact touched.seek s.position

theorem respects_readRemaining : Respects readRemaining := fun s =>
  respects_readBytes s.remaining s

theorem respects_setPosition (position : Nat) : Respects (setPosition position) := fun s =>
  (touches_refl s).seek position

theorem respects_skip (count : Nat) : Respects (skip count) := fun s => (touches_refl s).seek _

theorem respects_rewind (count : Nat) : Respects (rewind count) := by
  intro s
  unfold rewind
  split
  · exact (touches_refl s).seek _
  · exact touches_refl s

theorem respects_contents : Respects contents :=
  ((respects_setPosition 0).bind fun _ => respects_readRemaining).keepPosition

theorem respects_readStream (count : Nat) : Respects (readStream count) := by
  intro s
  unfold readStream
  split
  · exact touches_refl s
  · split
    · exact (touches_refl s).seek _
    · exact touches_refl s

theorem respects_readInt (format : IntFormat) : Respects (readInt format) :=
  (respects_readExact format.width).map format.decode

theorem respects_readIntOrZero (format : IntFormat) : Respects (readIntOrZero format) := by
  intro s
  unfold readIntOrZero
  cases read : readInt format s with
  | ok n t => exact (respects_readInt format).of_ok read
  | error e t => exact (respects_readInt format).of_error read

theorem respects_readTextFixed (count : Nat) : Respects (readTextFixed count) :=
  (respects_readExact count).map _

theorem respects_readUntilZero (blocks : Nat) (found : List UInt8) :
    Respects (readUntilZero blocks found) := by
  induction blocks generalizing found with
  | zero => exact respects_pure found
  | succ blocks ih =>
    refine (respects_readBytes textBlock).bind fun block => ?_
    refine respects_ite (respects_pure found) ?_
    exact respects_ite ((respects_rewind _).bind fun _ => respects_pure _) (ih _)

theorem respects_readText : Respects readText := fun s =>
  (respects_readUntilZero (s.remaining + 1) []).map Text.ofBytes s

/-! ### Bits -/

theorem respects_alignBits : Respects alignBits := fun s => (touches_refl s).withPending .none

theorem respects_readByte : Respects readByte := (respects_readExact 1).map (List.headD · 0)

theorem respects_loadBits : Respects loadBits := by
  intro s
  unfold loadBits
  split
  · cases read : readByte s with
    | ok b t => exact (respects_readByte.of_ok read).withPending _
    | error e t => exact respects_readByte.of_error read
  · exact touches_refl s

theorem respects_gatherBits (order : BitOrder) (rounds wanted gathered held : Nat) :
    Respects (gatherBits order rounds wanted gathered held) := by
  induction rounds generalizing wanted gathered held with
  | zero => exact respects_pure gathered
  | succ rounds ih =>
    cases wanted with
    | zero => exact respects_pure gathered
    | succ wanted =>
      refine respects_loadBits.bind fun pending => ?_
      exact Respects.bind (fun s => (touches_refl s).withPending _) fun _ => ih _ _ _

theorem respects_readBits (order : BitOrder) (width : Nat) : Respects (readBits order width) := by
  intro s
  have respects := respects_gatherBits order width width 0 0
  unfold readBits
  split
  · exact touches_refl s
  · cases gathered : gatherBits order width width 0 0 s with
    | ok n t => exact respects.of_ok gathered
    | error e t =>
      -- the cursor goes back to where it stood, over whatever the source has become
      have touched := respects.of_error gathered
      exact ⟨rfl, touched.grows, touched.inMemory, touched.outside⟩

/-! ### The plain interface -/

section Standard

open Standard

theorem Respects.lift {α : Type} {step : StreamM α} (inner : Respects step) :
    Respects (lift step) := by
  intro s
  unfold Standard.lift
  cases done : step s with
  | ok a t => exact inner.of_ok done
  | error e t => exact inner.of_error done

theorem respects_standardReadFull (count : Nat) : Respects (readFull count) := by
  refine (respects_readBytes count).lift.bind fun bytes => ?_
  exact respects_ite ((respects_throw _).bind fun _ => respects_pure bytes) (respects_pure bytes)

theorem respects_standardReadToEnd : Respects readToEnd := fun s =>
  (respects_readBytes (s.remaining + 1)).lift s

theorem respects_standardWriteAll (bytes : List UInt8) : Respects (writeAll bytes) :=
  respects_ite (respects_pure ()) (respects_writeBytes bytes).lift

theorem respects_standardSeek (anchor : Anchor) (distance : Int) :
    Respects (Standard.seek anchor distance) := by
  intro s
  unfold Standard.seek
  dsimp only
  split
  · exact (touches_refl s).seek _
  · exact touches_refl s

end Standard

/-! ### Actions -/

theorem Respects.ofResult {α : Type} {step : StreamM α} (respects : Respects step)
    (answer : α → Answer) (s : Stream) : s.Touches (Answer.ofResult answer (step s)).2 := by
  cases done : step s with
  | ok a t => exact respects.of_ok done
  | error e t => exact respects.of_error done

theorem Respects.ofStandard {α : Type} {step : StandardM α} (respects : Respects step)
    (answer : α → Answer) (s : Stream) : s.Touches (Answer.ofStandard answer (step s)).2 := by
  cases done : step s with
  | ok a t => exact respects.of_ok done
  | error e t => exact respects.of_error done

/-- Whatever a cursor is asked to do, it works inside its window. -/
theorem touches_run (action : Action) (s : Stream) : s.Touches (action.run s).2 := by
  cases action with
  | position | length | remaining | availableBits | atEnd | isSlice | window | describe
  | standardFlush => exact touches_refl s
  | setPosition position => exact (respects_setPosition position).ofResult _ s
  | skip count => exact (respects_skip count).ofResult _ s
  | rewind count => exact (respects_rewind count).ofResult _ s
  | alignBits => exact respects_alignBits.ofResult _ s
  | readBytes count => exact (respects_readBytes count).ofResult _ s
  | readExact count => exact (respects_readExact count).ofResult _ s
  | readVector count => exact (respects_readBytes count).ofResult _ s
  | readRemaining => exact respects_readRemaining.ofResult _ s
  | contents => exact respects_contents.ofResult _ s
  | writeBytes bytes => exact (respects_writeBytes bytes).ofResult _ s
  | readInt format => exact (respects_readInt format).ofResult _ s
  | readIntOrZero format => exact (respects_readIntOrZero format).ofResult _ s
  | writeInt format value => exact (respects_writeBytes _).ofResult _ s
  | readTextFixed count => exact (respects_readTextFixed count).ofResult _ s
  | readText => exact respects_readText.ofResult _ s
  | writeText text => exact (respects_writeText text).ofResult _ s
  | writeTextFixed text count => exact (respects_writeBytes _).ofResult _ s
  | writeToAlign alignment b => exact (respects_writeToAlign alignment b).ofResult _ s
  | readBits order width => exact (respects_readBits order width).ofResult _ s
  | standardRead count => exact (respects_readBytes count).lift.ofStandard _ s
  | standardReadFull count => exact (respects_standardReadFull count).ofStandard _ s
  | standardReadToEnd => exact respects_standardReadToEnd.ofStandard _ s
  | standardWrite bytes =>
    have written := (respects_writeBytes bytes).lift.map fun _ => bytes.length
    exact written.ofStandard _ s
  | standardWriteAll bytes => exact (respects_standardWriteAll bytes).ofStandard _ s
  | standardSeek anchor distance => exact (respects_standardSeek anchor distance).ofStandard _ s

end Stream

end PackageAssets
