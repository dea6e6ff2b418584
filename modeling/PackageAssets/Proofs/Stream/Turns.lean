import Mathlib.Logic.Relation
import PackageAssets.Proofs.Stream.Ahead
import PackageAssets.Proofs.Stream.Touches

/-!
# Turns

An operation of a cursor is a sequence of turns. A turn works on the stream of
the acting cursor inside its window, moves a cursor that is copied from, or makes
a new cursor. Nothing else happens in a session, so what every turn keeps holds
after any operations.
-/
namespace PackageAssets

/-! ### What operations involve -/

/-- The operation copies from cursor `other`. -/
inductive Op.CopiesFrom (other : Nat) : Op → Prop
  | copyFrom : CopiesFrom other (.copyFrom other)
  | keepPosition {ops : List Op} {op : Op} (member : op ∈ ops) (inner : CopiesFrom other op) :
      CopiesFrom other (.keepPosition ops)

/-- The cursor that is made sees all of a source. -/
def Derivation.Opens : Derivation → Prop
  | slice .. | sliceRemaining | readStream _ => False
  | shared | memory | bytes _ => True

/-- The operation makes a cursor that sees all of a source. -/
inductive Op.Opens : Op → Prop
  | make {derivation : Derivation} (opens : derivation.Opens) : Opens (.make derivation)
  | keepPosition {ops : List Op} {op : Op} (member : op ∈ ops) (inner : Opens op) :
      Opens (.keepPosition ops)

/-! ### Streams of a session -/

namespace Stream

theorem of_slice {s view : Stream} {lower upper : Edge} (made : s.slice lower upper = .ok view) :
    ∃ start stop, start ≤ stop ∧ stop ≤ s.length ∧ view = s.part start stop := by
  rw [slice_eq] at made
  dsimp only at made
  split at made
  · cases made
  case isFalse within =>
    cases made
    exact ⟨_, _, by omega, by omega, rfl⟩

theorem of_readStream {s view after : Stream} {count : Nat}
    (made : readStream count s = .ok view after) :
    ∃ start stop position, start ≤ stop ∧ stop ≤ s.length ∧ view = s.part start stop ∧
      after = s.seek position := by
  unfold readStream at made
  split at made
  · cases made
  · split at made
    case h_1 sliced =>
      cases made
      obtain ⟨start, stop, ordered, inside, rfl⟩ := of_slice sliced
      exact ⟨start, stop, _, ordered, inside, rfl, rfl⟩
    · cases made

/-- A read only moves the position. -/
theorem left_readBytes (count : Nat) (s : Stream) :
    ∃ position, leftBy (readBytes count s) = s.seek position := by
  unfold readBytes
  dsimp only
  split
  · exact ⟨s.position, rfl⟩
  · split
    · exact ⟨_, rfl⟩
    · exact ⟨s.position, rfl⟩

end Stream

namespace Session

variable {s t u : Session} {number : Nat} {op : Op}

theorem of_stream? {v : Stream} (found : s.stream? number = some v) :
    ∃ p, s.cursors[number]? = some p ∧ s.sources[p.source]? = some v.source ∧
      p.cursor = v.cursor := by
  unfold stream? at found
  cases known : s.cursors[number]? with
  | none => simp [known] at found
  | some p =>
    cases home : s.sources[p.source]? with
    | none => simp [known, home] at found
    | some source =>
      simp only [known, home, Option.bind_eq_bind, Option.bind_some, Option.pure_def,
        Option.some.injEq] at found
      subst found
      exact ⟨p, rfl, home, rfl⟩

theorem putStream_eq {p : Placed} (known : s.cursors[number]? = some p) (v : Stream) :
    s.putStream number v =
      ⟨s.sources.set p.source v.source, s.cursors.set number { p with cursor := v.cursor }⟩ := by
  rw [putStream, known]

theorem cursor_putStream {p : Placed} (known : s.cursors[number]? = some p) (v : Stream) :
    (s.putStream number v).cursors[number]? = some { p with cursor := v.cursor } := by
  obtain ⟨inside, -⟩ := List.getElem?_eq_some_iff.mp known
  simp [putStream_eq known, inside]

theorem cursor_putStream_ne {i : Nat} (other : i ≠ number) (v : Stream) :
    (s.putStream number v).cursors[i]? = s.cursors[i]? := by
  cases known : s.cursors[number]? with
  | none => rw [putStream, known]
  | some p => simp [putStream_eq known, List.getElem?_set_ne other.symm]

theorem cursor_putStream_behind {i : Nat} (behind : s.cursors.length ≤ i) (v : Stream) :
    (s.putStream number v).cursors[i]? = none := by
  cases known : s.cursors[number]? with
  | none =>
    rw [putStream, known]
    exact List.getElem?_eq_none behind
  | some p => simp [putStream_eq known, behind]

theorem source_putStream {p : Placed} {source : Source} (known : s.cursors[number]? = some p)
    (home : s.sources[p.source]? = some source) (v : Stream) :
    (s.putStream number v).sources[p.source]? = some v.source := by
  obtain ⟨inside, -⟩ := List.getElem?_eq_some_iff.mp home
  simp [putStream_eq known, inside]

theorem source_putStream_ne {p : Placed} (known : s.cursors[number]? = some p) {i : Nat}
    (other : i ≠ p.source) (v : Stream) :
    (s.putStream number v).sources[i]? = s.sources[i]? := by
  simp [putStream_eq known, List.getElem?_set_ne other.symm]

/-- A stream that changed only its cursor leaves all sources alone. -/
theorem sources_putStream {v w : Stream} (found : s.stream? number = some v)
    (same : w.source = v.source) : (s.putStream number w).sources = s.sources := by
  obtain ⟨p, known, home, -⟩ := of_stream? found
  obtain ⟨inside, there⟩ := List.getElem?_eq_some_iff.mp home
  rw [putStream_eq known, same, ← there]
  exact List.set_getElem_self inside

theorem stream?_putStream {v : Stream} (found : s.stream? number = some v) (w : Stream) :
    (s.putStream number w).stream? number = some w := by
  obtain ⟨p, known, home, -⟩ := of_stream? found
  obtain ⟨inside, -⟩ := List.getElem?_eq_some_iff.mp known
  obtain ⟨there, -⟩ := List.getElem?_eq_some_iff.mp home
  simp [stream?, putStream_eq known, inside, there]

/-! ### Turns -/

/-- One thing an operation of cursor `number` may do. -/
inductive Turn (number : Nat) (op : Op) : Session → Session → Prop
  /-- The acting cursor works inside its window, or a cursor copied from moves. -/
  | put {s : Session} {other : Nat} {v w : Stream} (found : s.stream? other = some v)
      (touched : v.Touches w)
      (who : other = number ∨ op.CopiesFrom other ∧ ∃ position, w = v.seek position) :
      Turn number op s (s.putStream other w)
  /-- A cursor is made that sees part of what the acting one sees. -/
  | view {s : Session} {p : Placed} {v : Stream} {start stop : Nat}
      (known : s.cursors[number]? = some p) (found : s.stream? number = some v)
      (ordered : start ≤ stop) (inside : stop ≤ v.length) :
      Turn number op s (s.place p.source (v.part start stop).cursor).2
  | shared {s : Session} {p : Placed} (opens : op.Opens) (known : s.cursors[number]? = some p) :
      Turn number op s (s.place p.source .root).2
  | fresh {s : Session} {source : Source} (opens : op.Opens) (inMemory : source.InMemory) :
      Turn number op s (s.placeNew source).2

/-- What an operation of cursor `number` may do. -/
abbrev Turns (number : Nat) (op : Op) : Session → Session → Prop :=
  Relation.ReflTransGen (Turn number op)

theorem Turn.mono {other : Op} (copies : ∀ i, op.CopiesFrom i → other.CopiesFrom i)
    (opens : op.Opens → other.Opens) (turn : Turn number op s t) : Turn number other s t := by
  cases turn with
  | put found touched who =>
    exact .put found touched (who.imp_right fun ⟨copied, moved⟩ => ⟨copies _ copied, moved⟩)
  | view known found ordered inside => exact .view known found ordered inside
  | shared opened known => exact .shared (opens opened) known
  | fresh opened inMemory => exact .fresh (opens opened) inMemory

/-- What one of some operations may do may be done by all of them. -/
theorem Turns.inner {ops : List Op} (member : op ∈ ops) (turns : Turns number op s t) :
    Turns number (.keepPosition ops) s t :=
  Relation.ReflTransGen.mono
    (fun _ _ => Turn.mono (fun _ => .keepPosition member) (.keepPosition member)) _ _ turns

theorem Turns.later {ops : List Op} (turns : Turns number (.keepPosition ops) s t) :
    Turns number (.keepPosition (op :: ops)) s t := by
  refine Relation.ReflTransGen.mono
    (fun _ _ => Turn.mono (fun i copied => ?_) fun opened => ?_) _ _ turns
  · cases copied with
    | keepPosition member inner => exact .keepPosition (List.mem_cons_of_mem op member) inner
  · cases opened with
    | keepPosition member inner => exact .keepPosition (List.mem_cons_of_mem op member) inner

theorem turns_act (action : Action) (s : Session) :
    Turns number (.act action) s (answer number (.act action) s).2 := by
  rw [answer]
  cases found : s.stream? number with
  | none => exact .refl
  | some v => exact .single (.put found (v.touches_run action) (.inl rfl))

theorem turns_slice {p : Placed} {v : Stream} (known : s.cursors[number]? = some p)
    (found : s.stream? number = some v) (lower upper : Edge) :
    Turns number op s (s.make number p.source v (.slice lower upper)).2 := by
  rw [make]
  cases made : v.slice lower upper with
  | error e => exact .refl
  | ok view =>
    obtain ⟨start, stop, ordered, inside, rfl⟩ := Stream.of_slice made
    exact .single (.view known found ordered inside)

theorem turns_readStream {p : Placed} {v : Stream} (known : s.cursors[number]? = some p)
    (found : s.stream? number = some v) (count : Nat) :
    Turns number op s (s.make number p.source v (.readStream count)).2 := by
  have respects := Stream.respects_readStream count
  rw [make]
  cases made : Stream.readStream count v with
  | error e after => exact .single (.put found (respects.of_error made) (.inl rfl))
  | ok view after =>
    have touched := respects.of_ok made
    have placed := cursor_putStream known after
    have moved := stream?_putStream found after
    obtain ⟨start, stop, position, ordered, inside, rfl, rfl⟩ := Stream.of_readStream made
    have worked : Turns number op s (s.putStream number (v.seek position)) :=
      .single (.put found touched (.inl rfl))
    have viewed := @Turn.view number op _ _ _ _ _ placed moved ordered inside
    exact worked.tail viewed

theorem turns_make (derivation : Derivation) (s : Session) :
    Turns number (.make derivation) s (answer number (.make derivation) s).2 := by
  rw [answer]
  cases known : s.cursors[number]? with
  | none => exact .refl
  | some p =>
    cases found : s.stream? number with
    | none => exact .refl
    | some v =>
      cases derivation with
      | slice lower upper => exact turns_slice known found lower upper
      | sliceRemaining => exact turns_slice known found (.included v.position) .unbounded
      | readStream count => exact turns_readStream known found count
      | shared => exact .single (.shared (.make trivial) known)
      | memory => exact .single (.fresh (.make trivial) ⟨_, rfl⟩)
      | bytes content => exact .single (.fresh (.make trivial) ⟨_, rfl⟩)

theorem turns_copy (giver rounds moved : Nat) (s : Session) :
    Turns number (.copyFrom giver) s (copy number giver rounds moved s).2 := by
  induction rounds generalizing moved s with
  | zero => exact .refl
  | succ rounds ih =>
    rw [copy]
    cases found : s.stream? giver with
    | none => exact .refl
    | some v =>
      have reading := Stream.respects_readBytes copyBlock
      have sought := Stream.left_readBytes copyBlock v
      dsimp only
      cases read : Stream.readBytes copyBlock v with
      | error e after =>
        rw [read] at sought
        exact .single (.put found (reading.of_error read) (.inr ⟨.copyFrom, sought⟩))
      | ok block after =>
        rw [read] at sought
        have given : Turns number (.copyFrom giver) s (s.putStream giver after) :=
          .single (.put found (reading.of_ok read) (.inr ⟨.copyFrom, sought⟩))
        cases block with
        | nil => exact given
        | cons b rest =>
          dsimp only
          cases target : (s.putStream giver after).stream? number with
          | none => exact given
          | some w =>
            have writing := Stream.respects_writeBytes (b :: rest)
            dsimp only
            cases done : Stream.writeBytes (b :: rest) w with
            | error e after' => exact given.tail (.put target (writing.of_error done) (.inl rfl))
            | ok _ after' =>
              have taken := given.tail (.put target (writing.of_ok done) (.inl rfl))
              exact taken.trans (ih _ _)

theorem turns_copyFrom (other : Nat) (s : Session) :
    Turns number (.copyFrom other) s (answer number (.copyFrom other) s).2 := by
  rw [answer]
  cases taker : s.stream? number with
  | none => exact .refl
  | some v =>
    cases giver : s.stream? other with
    | none => exact .refl
    | some source =>
      have turns : Turns number (.copyFrom other) s (copy number other _ 0 s).2 :=
        turns_copy other (source.remaining + 1) 0 s
      dsimp only
      cases done : copy number other (source.remaining + 1) 0 s with
      | mk result after =>
        rw [done] at turns
        cases result <;> exact turns

mutual

/-- An operation is made of turns. -/
theorem answer_turns (number : Nat) :
    ∀ (op : Op) (s : Session), Turns number op s (answer number op s).2
  | .act action, s => turns_act action s
  | .make derivation, s => turns_make derivation s
  | .copyFrom other, s => turns_copyFrom other s
  | .keepPosition ops, s => by
    have inner := answers_turns number ops s
    rw [answer]
    cases found : s.stream? number with
    | none => exact .refl
    | some before =>
      dsimp only
      cases after : (answers number ops s).2.stream? number with
      | none => exact inner
      | some v =>
        have back := (v.touches_refl).seek before.position
        exact inner.tail (.put after back (.inl rfl))

theorem answers_turns (number : Nat) :
    ∀ (ops : List Op) (s : Session), Turns number (.keepPosition ops) s (answers number ops s).2
  | [], s => .refl
  | op :: rest, s => by
    have first := answer_turns number op s
    have others := answers_turns number rest (answer number op s).2
    rw [answers]
    exact (first.inner List.mem_cons_self).trans others.later

end

end Session

end PackageAssets
