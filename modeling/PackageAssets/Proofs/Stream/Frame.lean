import PackageAssets.Proofs.Stream.ReadSide

/-!
# A window and a copy of its bytes

A frame is a run of bytes inside a source in memory. Whatever is done on the
read side of a view of the frame, and of the views made from it, can as well be
done with a copy of its bytes: the answers and the cursors are the same, and
only the windows lie further on by the start of the frame. Every step of a
session carries this over to the next.
-/
namespace PackageAssets

/-- The bytes from `start` to `stop` in a source in memory. -/
structure Frame where
  source : Source
  start : Nat
  stop : Nat
  inMemory : ∃ room, source.storage = .memory room
  counted : source.length < Count.bound
  ordered : start ≤ stop
  inside : stop ≤ source.length

namespace Frame

variable (f : Frame)

/-- The bytes of the frame alone. -/
def bytes : List UInt8 := Source.bytesAt f.source.content f.start (f.stop - f.start)

/-- A new stream on a copy of the bytes. -/
def copy : Stream := .ofBytes f.bytes

/-- The window in the frame that shows what a window on the copy shows. -/
def window : Window → Window
  | .root => .slice f.start f.stop
  | .slice first last => .slice (f.start + first) (f.start + last)

def cursor (c : Cursor) : Cursor := { c with window := f.window c.window }

def stream (s : Stream) : Stream := ⟨f.source, f.cursor s.cursor⟩

def placed (p : Placed) : Placed := { p with cursor := f.cursor p.cursor }

/-- The session on the frame that goes with one on the copy. -/
def session (s : Session) : Session := ⟨[f.source], s.cursors.map f.placed⟩

/-- The view of the frame. -/
def view : Stream := f.stream f.copy

variable {f}

theorem slice_eq :
    (Stream.onSource f.source).slice (.included f.start) (.excluded f.stop) = .ok f.view := by
  have made : (Stream.onSource f.source).part f.start f.stop = f.view := by
    change (⟨f.source, .start (.slice (0 + f.start) (0 + f.stop))⟩ : Stream) = f.view
    rw [Nat.zero_add, Nat.zero_add]
    rfl
  have inside : f.stop ≤ (Stream.onSource f.source).length := f.inside
  exact (Stream.slice_between f.ordered inside).trans (congrArg Except.ok made)

theorem base_window (w : Window) : (f.window w).base = f.start + w.base := by
  cases w <;> rfl

theorem stream_part (s : Stream) (start stop : Nat) :
    f.stream (s.part start stop) = (f.stream s).part start stop := by
  have base : (f.stream s).window.base = f.start + s.window.base := base_window s.window
  rw [Stream.part, Stream.part, base, Nat.add_assoc, Nat.add_assoc]
  rfl

/-- A stream on the copy that shows what it shows in the frame. -/
structure Shows (f : Frame) (s : Stream) : Prop where
  source : s.source = f.copy.source
  view : Stream.SameView (f.stream s) s

theorem shows_copy : f.Shows f.copy := by
  have size : f.bytes.length = f.stop - f.start := by
    have := f.inside
    unfold Source.length at this
    rw [bytes, Source.bytesAt, List.length_take, List.length_drop]
    omega
  have small : f.bytes.length < Count.bound := by
    have := f.inside
    have := f.counted
    omega
  have sound : f.view.Sound := ⟨f.inMemory, f.counted, f.ordered, f.inside⟩
  exact ⟨rfl, ⟨sound, Stream.sound_ofBytes small, Nat.zero_le _, rfl⟩, .intro 0 .none⟩

section

variable {s t u : Stream} (shows : f.Shows s)

include shows

theorem Shows.moved (position : Nat) (pending : PendingBits) :
    f.Shows (s.moved position pending) :=
  ⟨shows.source, shows.view.moved position pending⟩

theorem Shows.seek (position : Nat) : f.Shows (s.seek position) :=
  shows.moved position s.cursor.pending

/-- What a step leaves in the frame is what it leaves on the copy. -/
theorem Shows.after (beside : Stream.Beside 0 (f.stream s) s t u) :
    t = f.stream u ∧ f.Shows u := by
  cases beside with
  | intro position pending =>
    rw [Nat.zero_add]
    exact ⟨rfl, shows.moved position pending⟩

theorem Shows.part {start stop : Nat} (ordered : start ≤ stop) (inside : stop ≤ s.length) :
    f.Shows (s.part start stop) := by
  have view := Stream.sameView_part shows.view.twins shows.view.beside ordered inside
  rw [Nat.zero_add, Nat.zero_add, ← stream_part] at view
  exact ⟨shows.source, view⟩

end

/-! ### Sessions -/

/-- Every cursor of the session stands on the copy. -/
structure Admits (f : Frame) (s : Session) : Prop where
  sources : s.sources = [f.copy.source]
  placed : ∀ p ∈ s.cursors, p.source = 0 ∧ f.Shows ⟨f.copy.source, p.cursor⟩

/-- What was done in the frame is what was done on the copy. -/
structure Follows {α : Type} (f : Frame) (x y : α × Session) : Prop where
  same : x.1 = y.1
  session : x.2 = f.session y.2
  admits : f.Admits y.2

theorem admits_start : f.Admits (.start f.copy.source) := by
  refine ⟨rfl, ?_⟩
  intro p member
  cases List.mem_singleton.mp member
  exact ⟨rfl, shows_copy⟩

section

variable {s : Session} (admits : f.Admits s)

/-- A number is that of a cursor in both sessions, or in neither. -/
theorem cursor_cases (number : Nat) :
    (s.cursors[number]? = none ∧ (f.session s).cursors[number]? = none) ∨
      ∃ p, p ∈ s.cursors ∧ s.cursors[number]? = some p ∧
        (f.session s).cursors[number]? = some (f.placed p) := by
  have framed : (f.session s).cursors[number]? = s.cursors[number]?.map f.placed :=
    List.getElem?_map
  cases found : s.cursors[number]? with
  | none => exact Or.inl ⟨rfl, framed.trans (congrArg _ found)⟩
  | some p =>
    exact Or.inr ⟨p, List.mem_of_getElem? found, rfl, framed.trans (congrArg _ found)⟩

include admits

theorem stream?_cases (number : Nat) :
    (s.cursors[number]? = none ∧ (f.session s).cursors[number]? = none ∧
        s.stream? number = none ∧ (f.session s).stream? number = none) ∨
      ∃ p t, f.Shows t ∧ s.cursors[number]? = some p ∧ p.source = 0 ∧
        (f.session s).cursors[number]? = some (f.placed p) ∧
        s.stream? number = some t ∧ (f.session s).stream? number = some (f.stream t) := by
  unfold Session.stream?
  rw [admits.sources]
  rcases cursor_cases (f := f) (s := s) number with ⟨left, right⟩ | ⟨p, member, left, right⟩
  · rw [left, right]
    exact Or.inl ⟨rfl, rfl, rfl, rfl⟩
  · obtain ⟨home, shows⟩ := admits.placed p member
    refine Or.inr ⟨p, _, shows, left, home, right, ?_, ?_⟩
    · rw [left]
      simp [home]
    · rw [right]
      simp [home, Frame.placed, Frame.session, Frame.stream]

omit admits in
theorem report_eq (number : Nat) (answer : Answer) :
    (f.session s).report number answer = s.report number answer := by
  unfold Session.report
  rcases cursor_cases (f := f) (s := s) number with ⟨left, right⟩ | ⟨p, member, left, right⟩
  · rw [left, right]
  · rw [left, right]
    rfl

theorem putStream_follows {α : Type} (a : α) (number : Nat) {t : Stream} (shows : f.Shows t) :
    f.Follows (a, (f.session s).putStream number (f.stream t)) (a, s.putStream number t) := by
  unfold Session.putStream
  rcases cursor_cases (f := f) (s := s) number with ⟨left, right⟩ | ⟨p, member, left, right⟩
  · rw [left, right]
    exact ⟨rfl, rfl, admits⟩
  · obtain ⟨home, -⟩ := admits.placed p member
    rw [left, right]
    refine ⟨rfl, ?_, ?_, ?_⟩
    · have sources : (f.session s).sources.set (f.placed p).source (f.stream t).source =
          [f.source] := by
        change [f.source].set p.source f.source = [f.source]
        rw [home]
        rfl
      have cursors : (s.cursors.map f.placed).set number
          { f.placed p with cursor := (f.stream t).cursor } =
          (s.cursors.set number { p with cursor := t.cursor }).map f.placed :=
        (List.map_set (f := f.placed) (a := { p with cursor := t.cursor })).symm
      exact congr (congrArg Session.mk sources) cursors
    · dsimp only
      rw [home, admits.sources, shows.source]
      rfl
    · -- only the acting cursor changes, and the stream put back shows what it has to
      intro q inside
      rcases List.mem_or_eq_of_mem_set inside with old | rfl
      · exact admits.placed q old
      · exact ⟨home, shows.source ▸ shows⟩

theorem place_follows {t : Stream} (shows : f.Shows t) :
    f.Follows ((f.session s).place 0 (f.stream t).cursor) (s.place 0 t.cursor) := by
  refine ⟨?_, ?_, admits.sources, ?_⟩
  · have count : (f.session s).cursors.length = s.cursors.length := List.length_map f.placed
    exact congrArg Answer.cursor count
  · have cursors : s.cursors.map f.placed ++ [Placed.mk 0 (f.cursor t.cursor)] =
        (s.cursors ++ [Placed.mk 0 t.cursor]).map f.placed := by
      rw [List.map_append]
      rfl
    exact congrArg (Session.mk [f.source]) cursors
  · intro q inside
    rcases List.mem_append.mp inside with old | new
    · exact admits.placed q old
    · cases List.mem_singleton.mp new
      exact ⟨rfl, shows.source ▸ shows⟩

/-! ### Operations -/

theorem make_slice (number : Nat) (lower upper : Edge) {t : Stream} (shows : f.Shows t) :
    f.Follows ((f.session s).make number 0 (f.stream t) (.slice lower upper))
      (s.make number 0 t (.slice lower upper)) := by
  rw [Session.make, Session.make]
  rcases Stream.slice_agree shows.view.twins shows.view.beside lower upper with
    ⟨e, left, right⟩ | ⟨start, stop, ordered, inside, left, right⟩
  · rw [left, right]
    exact ⟨rfl, rfl, admits⟩
  · rw [left, right, ← stream_part]
    exact place_follows admits (shows.part ordered inside)

theorem make_follows {derivation : Derivation} (reads : derivation.ReadSide) (number : Nat)
    {t : Stream} (shows : f.Shows t) :
    f.Follows ((f.session s).make number 0 (f.stream t) derivation)
      (s.make number 0 t derivation) := by
  cases derivation with
  | slice lower upper => exact make_slice admits number lower upper shows
  | sliceRemaining => exact make_slice admits number (.included t.position) .unbounded shows
  | readStream count =>
    have run := Stream.readStream_agree shows.view.twins shows.view.beside count
    rw [Session.make, Session.make]
    generalize Stream.readStream count (f.stream t) = left at run ⊢
    generalize Stream.readStream count t = right at run ⊢
    cases run with
    | ok together =>
      obtain ⟨beside, start, stop, ordered, inside, rfl, rfl⟩ := together
      obtain ⟨rfl, after⟩ := shows.after beside
      have put := putStream_follows admits () number after
      have moved := put.session
      dsimp only at moved ⊢
      rw [moved, ← stream_part]
      exact place_follows put.admits (shows.part ordered inside)
    | @error e _ _ _ beside =>
      obtain ⟨rfl, after⟩ := shows.after beside
      exact putStream_follows admits (Answer.failed e) number after
  | shared | memory | bytes => exact reads.elim

theorem answer_act {action : Action} (reads : action.ReadSide) (number : Nat) :
    f.Follows (Session.answer number (.act action) (f.session s))
      (Session.answer number (.act action) s) := by
  rw [Session.answer, Session.answer]
  rcases stream?_cases admits number with
    ⟨-, -, left, right⟩ | ⟨p, t, shows, -, -, -, left, right⟩
  · rw [left, right]
    exact ⟨rfl, rfl, admits⟩
  · obtain ⟨same, beside⟩ := Action.run_same shows.view.twins shows.view.beside reads
    obtain ⟨moved, after⟩ := shows.after beside
    rw [left, right]
    dsimp only
    rw [same, moved]
    exact putStream_follows admits _ number after

theorem answer_make {derivation : Derivation} (reads : derivation.ReadSide) (number : Nat) :
    f.Follows (Session.answer number (.make derivation) (f.session s))
      (Session.answer number (.make derivation) s) := by
  rw [Session.answer, Session.answer]
  rcases stream?_cases admits number with
    ⟨known, framed, left, right⟩ | ⟨p, t, shows, known, home, framed, left, right⟩
  · rw [known, framed, left, right]
    exact ⟨rfl, rfl, admits⟩
  · rw [known, framed, left, right]
    dsimp only
    have same : (f.placed p).source = 0 := home
    rw [same, home]
    exact make_follows admits reads number shows

omit admits in
/-- Operations one after another, if each of them does in the frame what it does on the copy. -/
theorem answers_follows (number : Nat) {ops : List Op} (admits : f.Admits s)
    (each : ∀ op ∈ ops, ∀ s, f.Admits s →
      f.Follows (Session.answer number op (f.session s)) (Session.answer number op s)) :
    f.Follows (Session.answers number ops (f.session s)) (Session.answers number ops s) := by
  induction ops generalizing s with
  | nil =>
    rw [Session.answers, Session.answers]
    exact ⟨rfl, rfl, admits⟩
  | cons op rest ih =>
    obtain ⟨now, later⟩ := List.forall_mem_cons.mp each
    have first := now s admits
    have others := ih first.admits later
    rw [Session.answers, Session.answers]
    dsimp only
    rw [first.same, first.session, report_eq]
    exact ⟨congrArg (_ :: ·) others.same, others.session, others.admits⟩

/-- An operation of the read side does in the frame what it does on the copy. -/
theorem answer_follows {op : Op} (reads : op.ReadSide) (number : Nat) :
    f.Follows (Session.answer number op (f.session s)) (Session.answer number op s) := by
  induction reads generalizing s with
  | act reads => exact answer_act admits reads number
  | make reads => exact answer_make admits reads number
  | @keepPosition ops _ ih =>
    rw [Session.answer, Session.answer]
    rcases stream?_cases admits number with
      ⟨-, -, left, right⟩ | ⟨_, before, _, -, -, -, left, right⟩
    · rw [left, right]
      exact ⟨rfl, rfl, admits⟩
    · -- the inner operations may make cursors, so the invariant is carried through them
      have inner := answers_follows number admits fun op member s admits => ih op member admits
      rw [left, right]
      dsimp only
      rw [inner.same, inner.session]
      rcases stream?_cases inner.admits number with
        ⟨-, -, left, right⟩ | ⟨_, t, shows, -, -, -, left, right⟩
      · rw [left, right]
        exact ⟨rfl, rfl, inner.admits⟩
      · rw [left, right]
        exact putStream_follows inner.admits _ number (shows.seek before.position)

theorem step_follows {op : Op} (reads : op.ReadSide) (number : Nat) :
    f.Follows ((f.session s).step number op) (s.step number op) := by
  have run := answer_follows admits reads number
  unfold Session.step
  dsimp only
  rw [run.same, run.session, report_eq]
  exact ⟨rfl, rfl, run.admits⟩

/-- So do operations on any cursors. -/
theorem run_follows {ops : List (Nat × Op)} (reads : ∀ op ∈ ops, op.2.ReadSide) :
    f.Follows ((f.session s).run ops) (s.run ops) := by
  induction ops generalizing s with
  | nil => exact ⟨rfl, rfl, admits⟩
  | cons op rest ih =>
    obtain ⟨now, later⟩ := List.forall_mem_cons.mp reads
    have first := step_follows admits now op.1
    have others := ih first.admits later
    rw [Session.run, Session.run]
    dsimp only
    rw [first.same, first.session]
    exact ⟨congrArg (_ :: ·) others.same, others.session, others.admits⟩

end

end Frame

end PackageAssets
