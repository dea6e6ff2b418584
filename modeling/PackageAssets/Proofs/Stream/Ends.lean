import PackageAssets.Proofs.Stream.Turns

/-!
# How steps end

A step may leave one thing behind when it succeeds and another when it fails.
What holds wherever a sequence stops follows from what each of its steps leaves,
and a reader that only reads stops at some place of the stream it started on.
-/
namespace PackageAssets

variable {ε σ α β : Type}

/--
The step succeeded, and `done` holds of what it yields and leaves, or it failed, and `failed` holds
of what it leaves.
-/
inductive Ends (failed : σ → Prop) (done : α → σ → Prop) : EStateM.Result ε σ α → Prop where
  | ok {a : α} {s : σ} (finished : done a s) : Ends failed done (.ok a s)
  | error {e : ε} {s : σ} (stopped : failed s) : Ends failed done (.error e s)

namespace Ends

variable {failed : σ → Prop} {done : α → σ → Prop} {later : β → σ → Prop}

theorem bind {s : σ} {step : EStateM ε σ α} {next : α → EStateM ε σ β}
    (first : Ends failed done (step s)) (rest : ∀ a s, done a s → Ends failed later (next a s)) :
    Ends failed later ((step >>= next) s) := by
  generalize ran : step s = result at first
  cases first with
  | ok finished =>
    rw [bind_of_ok ran]
    exact rest _ _ finished
  | error stopped =>
    rw [bind_of_error ran]
    exact .error stopped

theorem mono {weaker : α → σ → Prop} {result : EStateM.Result ε σ α}
    (ends : Ends failed done result) (weaken : ∀ a s, done a s → weaker a s) :
    Ends failed weaker result := by
  cases ends with
  | ok finished => exact .ok (weaken _ _ finished)
  | error stopped => exact .error stopped

theorem of_ok {result : EStateM.Result ε σ α} (ends : Ends failed done result) {a : α} {s : σ}
    (succeeded : result = .ok a s) : done a s := by
  subst succeeded
  cases ends with
  | ok finished => exact finished

theorem of_error {result : EStateM.Result ε σ α} (ends : Ends failed done result) {e : ε} {s : σ}
    (failure : result = .error e s) : failed s := by
  subst failure
  cases ends with
  | error stopped => exact stopped

theorem left {kept : σ → Prop} {result : EStateM.Result ε σ α}
    (ends : Ends kept (fun _ => kept) result) : kept (leftBy result) := by
  cases ends with
  | ok finished => exact finished
  | error stopped => exact stopped

theorem of_leftBy {kept : σ → Prop} {result : EStateM.Result ε σ α} (left : kept (leftBy result)) :
    Ends kept (fun _ => kept) result := by
  cases result with
  | ok a s => exact .ok left
  | error e s => exact .error left

end Ends

/-- From where `kept` holds the step fails only where it still holds, else does what is `done`. -/
def Leaves (kept : σ → Prop) (done : α → σ → Prop) (step : EStateM ε σ α) : Prop :=
  ∀ s, kept s → Ends kept done (step s)

/-- What holds before the step holds after it, whether or not it fails. -/
abbrev Keeps (kept : σ → Prop) (step : EStateM ε σ α) : Prop := Leaves kept (fun _ => kept) step

section Sequence

variable {kept : σ → Prop} {done : α → σ → Prop} {later : β → σ → Prop}

theorem keeps_pure (a : α) : Keeps kept (pure a : EStateM ε σ α) := fun _ held => .ok held

theorem leaves_throw (e : ε) : Leaves kept done (throw e : EStateM ε σ α) :=
  fun _ held => .error held

theorem leaves_bind {step : EStateM ε σ α} {next : α → EStateM ε σ β} (first : Keeps kept step)
    (rest : ∀ a, Leaves kept later (next a)) : Leaves kept later (step >>= next) :=
  fun s held => (first s held).bind rest

theorem leaves_get {next : σ → EStateM ε σ β} (rest : ∀ s, Leaves kept later (next s)) :
    Leaves kept later (get >>= next) := fun s held => rest s s held

theorem leaves_ite {c : Prop} [Decidable c] {step other : EStateM ε σ α}
    (yes : Leaves kept done step) (no : Leaves kept done other) :
    Leaves kept done (if c then step else other) := by
  split
  · exact yes
  · exact no

/-- A check that stops with a failure. -/
theorem leaves_check {c : Prop} [Decidable c] {e : ε} {next : α → EStateM ε σ β}
    {other : EStateM ε σ β} (passed : Leaves kept later other) :
    Leaves kept later (if c then throw e >>= next else other) :=
  leaves_ite (fun _ held => .error held) passed

/-- A step that is taken under a condition, and what comes next in either case. -/
theorem leaves_optional {c : Prop} [Decidable c] {step : EStateM ε σ Unit}
    {next : Unit → EStateM ε σ β} (first : Keeps kept step) (rest : Leaves kept later (next ())) :
    Leaves kept later (if c then step >>= next else next ()) :=
  leaves_ite (leaves_bind first fun _ => rest) rest

end Sequence

/-! ### Reading only moves -/

namespace Stream

/-- Wherever the step ends, it has left the stream where it is but for the position. -/
def Moves (step : StreamM α) : Prop := ∀ s, Keeps (fun t => ∃ position, t = seek s position) step

theorem moves_of_left {step : StreamM α}
    (left : ∀ s, ∃ position, leftBy (step s) = s.seek position) : Moves step := by
  rintro s _ ⟨position, rfl⟩
  obtain ⟨stopped, known⟩ := left (s.seek position)
  exact .of_leftBy ⟨stopped, known⟩

theorem Moves.left {step : StreamM α} (moves : Moves step) (s : Stream) :
    ∃ position, leftBy (step s) = s.seek position := by
  have ends := moves s s ⟨s.position, rfl⟩
  generalize step s = result at ends
  cases ends with
  | ok finished => exact finished
  | error stopped => exact stopped

theorem moves_readBytes (count : Nat) : Moves (readBytes count) :=
  moves_of_left (left_readBytes count)

theorem moves_readExact (count : Nat) : Moves (readExact count) := by
  refine moves_of_left fun s => ?_
  obtain ⟨position, left⟩ := left_readBytes count s
  unfold readExact
  generalize readBytes count s = result at left
  cases result with
  | error e t => exact ⟨position, left⟩
  | ok bytes t =>
    obtain rfl : t = s.seek position := left
    dsimp only
    split
    · exact ⟨_, rfl⟩
    · exact ⟨_, rfl⟩

theorem moves_readNat (order : ByteOrder) (width : Nat) : Moves (readNat order width) :=
  fun s => leaves_bind (moves_readExact width s) fun _ => keeps_pure _

theorem moves_readInt (format : IntFormat) : Moves (readInt format) :=
  fun s => leaves_bind (moves_readExact format.width s) fun _ => keeps_pure _

theorem moves_setPosition (position : Nat) : Moves (setPosition position) :=
  moves_of_left fun _ => ⟨position, rfl⟩

theorem moves_skip (count : Nat) : Moves (skip count) := moves_of_left fun _ => ⟨_, rfl⟩

theorem moves_rewind (count : Nat) : Moves (rewind count) := by
  refine moves_of_left fun s => ?_
  unfold rewind
  split
  · exact ⟨_, rfl⟩
  · exact ⟨s.position, rfl⟩

theorem moves_readRemaining : Moves readRemaining :=
  moves_of_left fun s => left_readBytes s.remaining s

theorem Moves.keepPosition {step : StreamM α} (moves : Moves step) : Moves (keepPosition step) := by
  refine moves_of_left fun s => ?_
  obtain ⟨position, left⟩ := moves.left s
  refine ⟨s.position, ?_⟩
  unfold Stream.keepPosition
  generalize step s = result at left
  cases result with
  | ok a t => exact congrArg (·.seek s.position) left
  | error e t => exact congrArg (·.seek s.position) left

theorem moves_contents : Moves contents :=
  Moves.keepPosition fun s => leaves_bind (moves_setPosition 0 s) fun _ => moves_readRemaining s

theorem moves_readIntOrZero (format : IntFormat) : Moves (readIntOrZero format) := by
  refine moves_of_left fun s => ?_
  obtain ⟨position, left⟩ := (moves_readInt format).left s
  refine ⟨position, ?_⟩
  unfold readIntOrZero
  generalize readInt format s = result at left
  cases result with
  | ok n t => exact left
  | error e t => exact left

theorem moves_readTextFixed (count : Nat) : Moves (readTextFixed count) :=
  fun s => leaves_bind (moves_readExact count s) fun _ => keeps_pure _

theorem moves_readUntilZero (blocks : Nat) (found : List UInt8) :
    Moves (readUntilZero blocks found) := by
  intro s
  induction blocks generalizing found with
  | zero => exact keeps_pure found
  | succ blocks ih =>
    refine leaves_bind (moves_readBytes textBlock s) fun block => ?_
    refine leaves_ite (keeps_pure found) ?_
    exact leaves_ite (leaves_bind (moves_rewind _ s) fun _ => keeps_pure _) (ih _)

theorem moves_readText : Moves readText := by
  refine moves_of_left fun s => ?_
  have moves : Moves (do return Text.ofBytes (← readUntilZero (s.remaining + 1) [])) :=
    fun t => leaves_bind (moves_readUntilZero _ _ t) fun _ => keeps_pure _
  exact moves.left s

theorem moves_readStream (count : Nat) : Moves (readStream count) := by
  refine moves_of_left fun s => ?_
  unfold readStream
  split
  · exact ⟨s.position, rfl⟩
  · split
    · exact ⟨_, rfl⟩
    · exact ⟨s.position, rfl⟩

/-! ### What a read that succeeds says -/

/-- The bytes of the source from where the stream stands, also those behind the window. -/
def following (s : Stream) : List UInt8 := s.source.content.drop s.absolute

theorem following_seek_add (s : Stream) (count : Nat) :
    (s.seek (s.position + count)).following = s.following.drop count := by
  have place : (s.seek (s.position + count)).absolute = s.absolute + count :=
    (Nat.add_assoc ..).symm
  rw [following, following, List.drop_drop, place]
  rfl

section Succeeded

variable {s t : Stream} {count : Nat} {bytes : List UInt8}

/-- Bytes that were read stand in the source, whatever keeps it. -/
theorem of_readBytes (read : readBytes count s = .ok bytes t) (found : bytes ≠ []) :
    t = s.seek (s.position + bytes.length) ∧ bytes <+: s.following := by
  unfold readBytes at read
  dsimp only at read
  split at read
  · cases read
    exact absurd rfl found
  split at read
  case h_2 => cases read
  case h_1 stored =>
    cases read
    refine ⟨rfl, ?_⟩
    unfold Source.readAt at stored
    split at stored
    · cases stored
      exact List.take_prefix ..
    · split at stored
      · cases stored
      · cases stored
        exact List.take_prefix ..
    · cases stored

theorem of_readExact (read : readExact count s = .ok bytes t) :
    bytes.length = count ∧ readBytes count s = .ok bytes t := by
  unfold readExact at read
  cases ran : readBytes count s with
  | error e u =>
    rw [ran] at read
    cases read
  | ok found u =>
    rw [ran] at read
    dsimp only at read
    split at read
    case isTrue size =>
      cases read
      exact ⟨size, rfl⟩
    · cases read

theorem of_readNat {order : ByteOrder} {n : Nat} (read : readNat order count s = .ok n t) :
    ∃ bytes, readExact count s = .ok bytes t ∧ order.read bytes = n := by
  obtain ⟨bytes, u, exact, made⟩ := bind_eq_ok_iff.mp read
  cases made
  exact ⟨bytes, exact, rfl⟩

theorem readNat_lt {order : ByteOrder} {n : Nat} (read : readNat order count s = .ok n t) :
    n < 256 ^ count := by
  obtain ⟨bytes, exact, rfl⟩ := of_readNat read
  exact (of_readExact exact).1 ▸ order.read_lt bytes

/-- A number that was read is the one that follows in the source. -/
theorem readNat_following {order : ByteOrder} {n : Nat} (positive : 0 < count)
    (read : readNat order count s = .ok n t) :
    t = s.seek (s.position + count) ∧ count ≤ s.following.length ∧
      n = order.read (s.following.take count) := by
  obtain ⟨bytes, exact, rfl⟩ := of_readNat read
  obtain ⟨rfl, bytesRead⟩ := of_readExact exact
  obtain ⟨moved, front⟩ := of_readBytes bytesRead (List.length_pos_iff.mp positive)
  exact ⟨moved, front.length_le, congrArg order.read (List.prefix_iff_eq_take.mp front)⟩

theorem readInt_bounds {format : IntFormat} (signed : format.signed) {n : Int}
    (read : readInt format s = .ok n t) : -format.modulus ≤ 2 * n ∧ 2 * n < format.modulus := by
  obtain ⟨bytes, u, exact, made⟩ := bind_eq_ok_iff.mp read
  cases made
  exact IntFormat.decode_bounds signed (of_readExact exact).1

end Succeeded

end Stream

namespace Reading

/-- The reader stands somewhere in `s`, and `known` holds of what it has found. -/
structure Standing (s : Stream) (known : σ → Prop) (r : Reading σ) : Prop where
  place : ∃ position, r.stream = s.seek position
  found : known r.found

theorem standing_start {s : Stream} {known : σ → Prop} {found : σ} (h : known found) :
    Standing s known (start s found) := ⟨⟨s.position, rfl⟩, h⟩

variable {s : Stream} {known : σ → Prop} {later : β → Reading σ → Prop}

theorem keeps_onStream [OfIoError ε] {step : StreamM α} (moves : Stream.Moves step) :
    Keeps (Standing s known) (onStream step : ReadingM ε σ α) := by
  rintro r ⟨place, found⟩
  have ends := moves s r.stream place
  unfold onStream
  generalize step r.stream = result at ends
  cases ends with
  | ok finished => exact .ok ⟨finished, found⟩
  | error stopped => exact .error ⟨stopped, found⟩

theorem keeps_note (level : Level) (origin : Origin) (text : String) :
    Keeps (Standing s known) (note level origin text : ReadingM ε σ Unit) :=
  fun _ held => .ok ⟨held.place, held.found⟩

theorem keeps_modifyFound {f : σ → σ} (stable : ∀ c, known c → known (f c)) :
    Keeps (Standing s known) (modifyFound f : ReadingM ε σ Unit) :=
  fun _ held => .ok ⟨held.place, stable _ held.found⟩

theorem leaves_soFar {next : σ → ReadingM ε σ β}
    (rest : ∀ c, known c → Leaves (Standing s known) later (next c)) :
    Leaves (Standing s known) later (soFar >>= next) :=
  fun r held => rest r.found held.found r held

end Reading

end PackageAssets
