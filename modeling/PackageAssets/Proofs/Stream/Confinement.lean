import PackageAssets.Proofs.Stream.Turns

/-!
# Slices are confined

Cursors over one source alias: each reads and writes the bytes the others see,
and the source grows under all of them. From what a single turn does follows, for
the states any session reaches, that windows lie inside their source, that
sources never get shorter, and that an operation through a slice does nothing
outside it.
-/
namespace PackageAssets

/-- The window is a slice inside the one from `start` to `stop`. -/
def Window.Inside (start stop : Nat) : Window → Prop
  | root => False
  | slice first last => start ≤ first ∧ first ≤ last ∧ last ≤ stop

/-- A view lies inside the window it was made from. -/
theorem Stream.inside_part (v : Stream) {start stop : Nat} (ordered : start ≤ stop)
    (inside : stop ≤ v.length) :
    (v.part start stop).window.Inside v.window.base (v.window.base + v.length) := by
  change _ ≤ v.window.base + start ∧ v.window.base + start ≤ v.window.base + stop ∧ _
  omega

namespace Session

variable {s t u : Session} {number : Nat} {op : Op}

/-- Every source is in memory, and every window lies inside its source. -/
structure Orderly (s : Session) : Prop where
  inMemory : ∀ source ∈ s.sources, source.InMemory
  placed : ∀ p ∈ s.cursors, ∃ source, s.sources[p.source]? = some source ∧
    p.cursor.window.Within source.length

/-- Sources get no shorter, and cursors keep their source and their window. -/
structure Extends (s t : Session) : Prop where
  sources : ∀ (i : Nat) (source : Source), s.sources[i]? = some source →
    ∃ after : Source, t.sources[i]? = some after ∧ source.length ≤ after.length
  cursors : ∀ (i : Nat) (p : Placed), s.cursors[i]? = some p → ∃ q : Placed,
    t.cursors[i]? = some q ∧ q.source = p.source ∧ q.cursor.window = p.cursor.window

theorem extends_refl (s : Session) : s.Extends s :=
  ⟨fun _ source known => ⟨source, known, Nat.le_refl _⟩, fun _ p known => ⟨p, known, rfl, rfl⟩⟩

theorem Extends.trans (first : s.Extends t) (later : t.Extends u) : s.Extends u := by
  constructor
  · intro i source known
    obtain ⟨middle, there, longer⟩ := first.sources i source known
    obtain ⟨after, still, more⟩ := later.sources i middle there
    exact ⟨after, still, Nat.le_trans longer more⟩
  · intro i p known
    obtain ⟨q, there, source, window⟩ := first.cursors i p known
    obtain ⟨r, still, source', window'⟩ := later.cursors i q there
    exact ⟨r, still, source'.trans source, window'.trans window⟩

/-! ### One turn -/

theorem extends_append (s : Session) (sources : List Source) (cursors : List Placed) :
    s.Extends ⟨s.sources ++ sources, s.cursors ++ cursors⟩ := by
  constructor
  · intro i source known
    obtain ⟨inside, -⟩ := List.getElem?_eq_some_iff.mp known
    exact ⟨source, (List.getElem?_append_left inside).trans known, Nat.le_refl _⟩
  · intro i p known
    obtain ⟨inside, -⟩ := List.getElem?_eq_some_iff.mp known
    exact ⟨p, (List.getElem?_append_left inside).trans known, rfl, rfl⟩

theorem extends_putStream {v w : Stream} (found : s.stream? number = some v)
    (touched : v.Touches w) : s.Extends (s.putStream number w) := by
  obtain ⟨p, known, home, same⟩ := of_stream? found
  constructor
  · intro i source old
    by_cases this : i = p.source
    · subst this
      cases home.symm.trans old
      exact ⟨w.source, source_putStream known home w, touched.grows⟩
    · exact ⟨source, (source_putStream_ne known this w).trans old, Nat.le_refl _⟩
  · intro i q old
    by_cases this : i = number
    · subst this
      cases known.symm.trans old
      refine ⟨_, cursor_putStream known w, rfl, ?_⟩
      rw [same]
      exact touched.window
    · exact ⟨q, (cursor_putStream_ne this w).trans old, rfl, rfl⟩

theorem Turn.extends (turn : Turn number op s t) : s.Extends t := by
  cases turn with
  | put found touched => exact extends_putStream found touched
  | view | shared =>
    have more := extends_append s []
    simp only [List.append_nil] at more
    exact more _
  | fresh => exact extends_append s _ _

theorem Turns.extends (turns : Turns number op s t) : s.Extends t := by
  induction turns with
  | refl => exact extends_refl s
  | tail _ turn ih => exact ih.trans turn.extends

/-! ### Windows lie inside their source -/

/-- A cursor whose source and window are those of an old one has its window in its source. -/
theorem Orderly.carry (orderly : s.Orderly) (grown : s.Extends t) {p q : Placed}
    (old : p ∈ s.cursors) (home : q.source = p.source)
    (window : q.cursor.window = p.cursor.window) :
    ∃ source, t.sources[q.source]? = some source ∧ q.cursor.window.Within source.length := by
  obtain ⟨source, known, within⟩ := orderly.placed p old
  obtain ⟨after, still, longer⟩ := grown.sources p.source source known
  rw [home, window]
  exact ⟨after, still, within.mono longer⟩

theorem Orderly.putStream (orderly : s.Orderly) {v w : Stream} (found : s.stream? number = some v)
    (touched : v.Touches w) : (s.putStream number w).Orderly := by
  have grown := extends_putStream found touched
  obtain ⟨p, known, home, same⟩ := of_stream? found
  constructor
  · rw [putStream_eq known]
    intro source member
    rcases List.mem_or_eq_of_mem_set member with old | rfl
    · exact orderly.inMemory source old
    · exact touched.inMemory (orderly.inMemory _ (List.mem_of_getElem? home))
  · rw [putStream_eq known] at grown ⊢
    intro q member
    rcases List.mem_or_eq_of_mem_set member with old | rfl
    · exact orderly.carry grown old rfl rfl
    · refine orderly.carry grown (List.mem_of_getElem? known) rfl ?_
      rw [same]
      exact touched.window

theorem Orderly.append (orderly : s.Orderly) {sources : List Source} {q : Placed}
    (inMemory : ∀ source ∈ sources, source.InMemory)
    (placed : ∃ source, (s.sources ++ sources)[q.source]? = some source ∧
      q.cursor.window.Within source.length) :
    Orderly ⟨s.sources ++ sources, s.cursors ++ [q]⟩ := by
  constructor
  · intro source member
    rcases List.mem_append.mp member with old | new
    · exact orderly.inMemory source old
    · exact inMemory source new
  · intro p member
    rcases List.mem_append.mp member with old | new
    · exact orderly.carry (extends_append s sources [q]) old rfl rfl
    · cases List.mem_singleton.mp new
      exact placed

theorem Orderly.place (orderly : s.Orderly) {home : Nat} {cursor : Cursor}
    (placed : ∃ source, s.sources[home]? = some source ∧ cursor.window.Within source.length) :
    (s.place home cursor).2.Orderly := by
  have none : ∀ source ∈ ([] : List Source), source.InMemory := nofun
  have more := orderly.append none (q := ⟨home, cursor⟩)
  rw [List.append_nil] at more
  exact more placed

theorem Orderly.turn (orderly : s.Orderly) (turn : Turn number op s t) : t.Orderly := by
  cases turn with
  | put found touched => exact orderly.putStream found touched
  | @view p v start stop known found ordered inside =>
    obtain ⟨p', known', home, same⟩ := of_stream? found
    cases known.symm.trans known'
    obtain ⟨source, there, within⟩ := orderly.placed p (List.mem_of_getElem? known)
    cases there.symm.trans home
    rw [same] at within
    have least := Stream.base_add_length_le_of_within within
    obtain ⟨-, first, last⟩ := v.inside_part ordered inside
    exact orderly.place ⟨v.source, home, first, Nat.le_trans last least⟩
  | @shared p _ known =>
    obtain ⟨source, there, -⟩ := orderly.placed p (List.mem_of_getElem? known)
    exact orderly.place ⟨source, there, trivial⟩
  | @fresh source _ inMemory =>
    refine orderly.append (List.forall_mem_singleton.mpr inMemory) ⟨source, ?_, trivial⟩
    exact List.getElem?_concat_length

/-! ### Nothing changes outside a slice -/

/-- The cursor sees the bytes from `start` to `stop` of source `home`. -/
structure Sees (home start stop : Nat) (p : Placed) : Prop where
  source : p.source = home
  window : p.cursor.window = .slice start stop

/-- What an operation of a cursor that sees a slice may make of a session. -/
structure Confined (number : Nat) (op : Op) (home start stop : Nat) (s t : Session) : Prop where
  acting : ∃ p, t.cursors[number]? = some p ∧ Sees home start stop p
  /-- The source keeps its length, and its bytes outside the slice. -/
  inside : ∀ source : Source, s.sources[home]? = some source →
    ∃ after, t.sources[home]? = some after ∧ source.SameOutside start stop after
  elsewhere : ∀ (i : Nat) (source : Source), i ≠ home → s.sources[i]? = some source →
    t.sources[i]? = some source
  others : ∀ (i : Nat) (p : Placed), i ≠ number → ¬op.CopiesFrom i → s.cursors[i]? = some p →
    t.cursors[i]? = some p
  /-- Of a cursor that is copied from only the position changes. -/
  moved : ∀ (i : Nat) (p : Placed), i ≠ number → s.cursors[i]? = some p →
    ∃ position, t.cursors[i]? = some { p with cursor := { p.cursor with position := position } }
  /-- Cursors that are made see part of the slice, unless they are to see all of a source. -/
  made : ∀ (i : Nat) (p : Placed), s.cursors.length ≤ i → t.cursors[i]? = some p →
    p.source = home ∧ p.cursor.window.Inside start stop ∨ p.cursor.window = .root ∧ op.Opens

variable {home start stop : Nat}

theorem confined_refl {p : Placed} (known : s.cursors[number]? = some p)
    (sees : Sees home start stop p) : Confined number op home start stop s s where
  acting := ⟨p, known, sees⟩
  inside source there := ⟨source, there, source.sameOutside_refl ..⟩
  elsewhere _ _ _ there := there
  others _ _ _ _ there := there
  moved _ p _ there := ⟨p.cursor.position, there⟩
  made i p behind there := by
    obtain ⟨inside, -⟩ := List.getElem?_eq_some_iff.mp there
    omega

theorem Confined.trans (first : Confined number op home start stop s t)
    (later : Confined number op home start stop t u) (inside : number < s.cursors.length) :
    Confined number op home start stop s u where
  acting := later.acting
  inside source there := by
    obtain ⟨middle, known, same⟩ := first.inside source there
    obtain ⟨after, still, also⟩ := later.inside middle known
    exact ⟨after, still, same.trans also⟩
  elsewhere i source other there :=
    later.elsewhere i source other (first.elsewhere i source other there)
  others i p other alone there :=
    later.others i p other alone (first.others i p other alone there)
  moved i p other there := by
    obtain ⟨_, known⟩ := first.moved i p other there
    obtain ⟨position, still⟩ := later.moved i _ other known
    exact ⟨position, still⟩
  made i p behind there := by
    by_cases old : i < t.cursors.length
    · -- the cursor was made before, and has only moved since
      have known := List.getElem?_eq_getElem old
      obtain ⟨position, still⟩ := later.moved i _ (by omega) known
      cases still.symm.trans there
      have allowed := first.made i _ behind known
      exact allowed
    · exact later.made i p (Nat.le_of_not_lt old) there

/-! ### One turn of a slice -/

/-- The acting cursor works inside its window. -/
theorem confined_work (orderly : s.Orderly) {p : Placed} (known : s.cursors[number]? = some p)
    (sees : Sees home start stop p) {v w : Stream} (found : s.stream? number = some v)
    (touched : v.Touches w) : Confined number op home start stop s (s.putStream number w) := by
  obtain ⟨p', known', there, same⟩ := of_stream? found
  cases known.symm.trans known'
  obtain ⟨rfl, window⟩ := sees
  obtain ⟨source, there', within⟩ := orderly.placed p (List.mem_of_getElem? known)
  cases there.symm.trans there'
  rw [window] at within
  have seen : v.window = .slice start stop := by rw [Stream.window, ← same, window]
  have inMemory := orderly.inMemory _ (List.mem_of_getElem? there)
  have outside := touched.outside inMemory start stop seen within.2
  constructor
  · exact ⟨_, cursor_putStream known w, rfl, touched.window.trans seen⟩
  · intro source old
    cases there.symm.trans old
    exact ⟨_, source_putStream known there w, outside⟩
  · intro i source other old
    exact (source_putStream_ne known other w).trans old
  · intro i q other _ old
    exact (cursor_putStream_ne other w).trans old
  · intro i q other old
    exact ⟨q.cursor.position, (cursor_putStream_ne other w).trans old⟩
  · intro i q behind made
    rw [cursor_putStream_behind behind] at made
    cases made

/-- Another cursor is copied from. -/
theorem confined_give {p : Placed} (known : s.cursors[number]? = some p)
    (sees : Sees home start stop p) {giver : Nat} (another : giver ≠ number)
    (copied : op.CopiesFrom giver) {v : Stream} (found : s.stream? giver = some v)
    (position : Nat) :
    Confined number op home start stop s (s.putStream giver (v.seek position)) := by
  obtain ⟨q, there, -, same⟩ := of_stream? found
  have unchanged := sources_putStream found (w := v.seek position) rfl
  have sought : (s.putStream giver (v.seek position)).cursors[giver]? =
      some { q with cursor := { q.cursor with position := position } } := by
    rw [cursor_putStream there, same]
    rfl
  constructor
  · exact ⟨p, (cursor_putStream_ne another.symm _).trans known, sees⟩
  · intro source old
    rw [unchanged]
    exact ⟨source, old, source.sameOutside_refl ..⟩
  · intro i source _ old
    rw [unchanged]
    exact old
  · intro i r _ alone old
    have other : i ≠ giver := fun same => alone (same ▸ copied)
    exact (cursor_putStream_ne other _).trans old
  · intro i r _ old
    by_cases this : i = giver
    · subst this
      cases there.symm.trans old
      exact ⟨position, sought⟩
    · exact ⟨r.cursor.position, (cursor_putStream_ne this _).trans old⟩
  · intro i r behind made
    rw [cursor_putStream_behind behind] at made
    cases made

/-- A cursor is made. -/
theorem confined_append {p : Placed} (known : s.cursors[number]? = some p)
    (sees : Sees home start stop p) (sources : List Source) {q : Placed}
    (allowed : q.source = home ∧ q.cursor.window.Inside start stop ∨
      q.cursor.window = .root ∧ op.Opens) :
    Confined number op home start stop s ⟨s.sources ++ sources, s.cursors ++ [q]⟩ := by
  have kept : ∀ {i : Nat} {r : Placed}, s.cursors[i]? = some r →
      (s.cursors ++ [q])[i]? = some r := fun old =>
    (List.getElem?_append_left (List.getElem?_eq_some_iff.mp old).1).trans old
  have stored : ∀ {i : Nat} {source : Source}, s.sources[i]? = some source →
      (s.sources ++ sources)[i]? = some source := fun old =>
    (List.getElem?_append_left (List.getElem?_eq_some_iff.mp old).1).trans old
  constructor
  · exact ⟨p, kept known, sees⟩
  · intro source old
    exact ⟨source, stored old, source.sameOutside_refl ..⟩
  · exact fun i source _ old => stored old
  · exact fun i r _ _ old => kept old
  · exact fun i r _ old => ⟨r.cursor.position, kept old⟩
  · intro i r behind there
    rw [List.getElem?_append_right behind] at there
    cases List.mem_singleton.mp (List.mem_of_getElem? there)
    exact allowed

theorem confined_place {p : Placed} (known : s.cursors[number]? = some p)
    (sees : Sees home start stop p) {host : Nat} {cursor : Cursor}
    (allowed : host = home ∧ cursor.window.Inside start stop ∨ cursor.window = .root ∧ op.Opens) :
    Confined number op home start stop s (s.place host cursor).2 := by
  have more := confined_append known sees [] (q := ⟨host, cursor⟩) allowed
  rw [List.append_nil] at more
  exact more

theorem Turn.confined (orderly : s.Orderly) {p : Placed} (known : s.cursors[number]? = some p)
    (sees : Sees home start stop p) (turn : Turn number op s t) :
    Confined number op home start stop s t := by
  cases turn with
  | @put other v w found touched who =>
    by_cases this : other = number
    · subst this
      exact confined_work orderly known sees found touched
    · obtain ⟨copied, position, rfl⟩ := who.resolve_left this
      exact confined_give known sees this copied found position
  | @view p' v start' stop' known' found ordered inside =>
    cases known.symm.trans known'
    obtain ⟨p', known', -, same⟩ := of_stream? found
    cases known.symm.trans known'
    obtain ⟨source, -, within⟩ := orderly.placed p (List.mem_of_getElem? known)
    rw [sees.window] at within
    have window : v.window = .slice start stop := by rw [Stream.window, ← same, sees.window]
    have last : v.window.base + v.length = stop := by
      rw [Stream.length, window]
      exact Nat.add_sub_of_le within.1
    have part := v.inside_part ordered inside
    rw [last, window] at part
    exact confined_place known sees (.inl ⟨sees.source, part⟩)
  | shared opens known' => exact confined_place known sees (.inr ⟨rfl, opens⟩)
  | fresh opens => exact confined_append known sees _ (.inr ⟨rfl, opens⟩)

/-! ### Any session -/

theorem Orderly.turns (orderly : s.Orderly) (turns : Turns number op s t) : t.Orderly := by
  induction turns with
  | refl => exact orderly
  | tail _ turn ih => exact ih.turn turn

theorem Turns.confined (orderly : s.Orderly) {p : Placed} (known : s.cursors[number]? = some p)
    (sees : Sees home start stop p) (turns : Turns number op s t) :
    Confined number op home start stop s t := by
  have inside := (List.getElem?_eq_some_iff.mp known).1
  induction turns with
  | refl => exact confined_refl known sees
  | tail earlier turn ih =>
    obtain ⟨q, still, seen⟩ := ih.acting
    exact ih.trans (turn.confined (orderly.turns earlier) still seen) inside

theorem step_turns (s : Session) (number : Nat) (op : Op) :
    Turns number op s (s.step number op).2 := answer_turns number op s

theorem orderly_start (content : List UInt8) (room : Nat) :
    Orderly (.start ⟨content, .memory room⟩) := by
  constructor
  · intro source member
    cases List.mem_singleton.mp member
    exact ⟨room, rfl⟩
  · intro p member
    cases List.mem_singleton.mp member
    exact ⟨_, rfl, trivial⟩

theorem Orderly.run (orderly : s.Orderly) (ops : List (Nat × Op)) : (s.run ops).2.Orderly := by
  induction ops generalizing s with
  | nil => exact orderly
  | cons op rest ih => exact ih (orderly.turns (step_turns s op.1 op.2))

/--
Slices are confined. Whatever cursors over bytes in memory were asked to do, the window of each of
them lies inside its source; and whatever a cursor is asked then, no source gets shorter, and if
the cursor sees a slice, then whether or not the operation fails, the bytes outside the slice and
the length of its source stay as they are, other sources too, and other cursors but for the
positions of those it copies from, and cursors made by slicing see part of the slice.
-/
theorem slices_confined (content : List UInt8) (room : Nat) (ops : List (Nat × Op)) :
    let s := ((Session.start ⟨content, .memory room⟩).run ops).2
    s.Orderly ∧ ∀ number op, s.Extends (s.step number op).2 ∧
      ∀ p home start stop, s.cursors[number]? = some p → Sees home start stop p →
        Confined number op home start stop s (s.step number op).2 := by
  intro s
  have orderly : s.Orderly := (orderly_start content room).run ops
  refine ⟨orderly, fun number op => ⟨?_, ?_⟩⟩
  · exact (step_turns s number op).extends
  · intro p home start stop known sees
    exact (step_turns s number op).confined orderly known sees

/-- A slice of the middle of five bytes is written to, up to its end and across it. -/
theorem slices_confined_middle :
    let s := ((Session.start ⟨[1, 2, 3, 4, 5], .memory 5⟩).run
      [(0, .make (.slice (.included 1) (.excluded 3)))]).2
    let inside := s.step 1 (.act (.writeBytes [8, 9]))
    let across := s.step 1 (.act (.writeBytes [7, 8, 9]))
    Confined 1 (.act (.writeBytes [8, 9])) 0 1 3 s inside.2 ∧
      Confined 1 (.act (.writeBytes [7, 8, 9])) 0 1 3 s across.2 ∧
      inside.2.sources = [⟨[1, 8, 9, 4, 5], .memory 5⟩] ∧ across.2 = s := by
  obtain ⟨-, confined⟩ := slices_confined [1, 2, 3, 4, 5] 5
    [(0, .make (.slice (.included 1) (.excluded 3)))]
  refine ⟨?_, ?_, rfl, rfl⟩
  · exact (confined 1 _).2 ⟨0, .start (.slice 1 3)⟩ 0 1 3 rfl ⟨rfl, rfl⟩
  · exact (confined 1 _).2 ⟨0, .start (.slice 1 3)⟩ 0 1 3 rfl ⟨rfl, rfl⟩

end Session

end PackageAssets
