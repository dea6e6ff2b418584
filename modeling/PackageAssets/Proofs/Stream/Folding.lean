import Mathlib.Algebra.GroupWithZero.Nat
import PackageAssets.Proofs.Stream.Room
import PackageAssets.Proofs.Stream.Twins

/-!
# Views of views

A view of a view is one window on the source. So a chain of views, each of part of
the one before, comes to a single view whose place is found by adding up where the
ranges start. Ranges are limited to counts before they are checked; here they are
exact numbers, and the limit makes no difference, because a range that reaches it
lies in no source.
-/
namespace PackageAssets

/-- Where a range with this lower edge starts. -/
def Edge.first : Edge → Nat
  | unbounded => 0
  | included n => n
  | excluded n => n + 1

/-- Where a range with this upper edge stops, in a window of `length` bytes. -/
def Edge.last (length : Nat) : Edge → Nat
  | unbounded => length
  | included n => n + 1
  | excluded n => n

/-- The edge is given by this number. -/
def Edge.Names (number : Nat) (edge : Edge) : Prop :=
  edge = included number ∨ edge = excluded number

theorem Edge.Names.le_first {number : Nat} {edge : Edge} (names : edge.Names number) :
    number ≤ edge.first := by
  rcases names with rfl | rfl
  · exact Nat.le_refl number
  · exact Nat.le_succ number

theorem Edge.Names.le_last {number : Nat} {edge : Edge} (names : edge.Names number)
    (length : Nat) : number ≤ edge.last length := by
  rcases names with rfl | rfl
  · exact Nat.le_succ number
  · exact Nat.le_refl number

namespace Stream

/-- The last of a chain of views, each of part of the one before. -/
def sliceAll (s : Stream) (chain : List (Edge × Edge)) : Except IoError Stream :=
  chain.foldlM (fun view range => view.slice range.1 range.2) s

/-- The ranges of a chain in exact numbers, each against the length of the view it is part of. -/
def exactRanges : Nat → List (Edge × Edge) → List (Nat × Nat)
  | _, [] => []
  | length, (lower, upper) :: chain =>
    let start := lower.first
    let stop := upper.last length
    (start, stop) :: exactRanges (stop - start) chain

/-- Every range lies inside the view it is part of. -/
def Nested : Nat → List (Nat × Nat) → Prop
  | _, [] => True
  | length, (start, stop) :: ranges => start ≤ stop ∧ stop ≤ length ∧ Nested (stop - start) ranges

/-- Where the last range starts in the first window. -/
def foldedStart (ranges : List (Nat × Nat)) : Nat := (ranges.map Prod.fst).sum

/-- Where the last range stops in the first window. -/
def foldedStop (ranges : List (Nat × Nat)) : Nat :=
  (ranges.dropLast.map Prod.fst).sum + (ranges.map Prod.snd).getLastD 0

/-- `view` shows the window of `s` from `start` to `stop`: what is read or written through it is
read or written at the same place as through `s`. -/
structure LiesAt (s : Stream) (start stop : Nat) (view : Stream) : Prop where
  window : view.window = .slice (s.window.base + start) (s.window.base + stop)
  atStart : view.position = 0
  noBits : view.cursor.pending = .none
  reads : ∀ position count, position + count ≤ stop - start → ∃ bytes,
    readExact count (view.seek position) = .ok bytes (view.seek (position + count)) ∧
    readExact count (s.seek (start + position)) = .ok bytes (s.seek (start + position + count))
  writes : ∀ position bytes, position + bytes.length ≤ stop - start → ∃ t u,
    writeBytes bytes (view.seek position) = .ok () t ∧
    writeBytes bytes (s.seek (start + position)) = .ok () u ∧ t.source = u.source

variable {s : Stream}

/-! ### One range -/

theorem part_part (s : Stream) (start stop first last : Nat) :
    (s.part start stop).part first last = s.part (start + first) (start + last) := by
  simp only [part, window, Cursor.start, Window.base, Nat.add_assoc]

theorem OnVector.length_lt_top (vector : s.OnVector) : s.length < Count.top := by
  have inside := base_add_length_le_of_within vector.within
  have short := vector.short
  unfold Source.longestVector at short
  unfold Count.top
  omega

theorem resolve_eq {lower upper : Edge} {length : Nat} (first : lower.first ≤ Count.top)
    (last : upper.last length ≤ Count.top) :
    resolve lower upper length = (lower.first, upper.last length) := by
  refine Prod.ext ?_ ?_
  · cases lower with
    | unbounded | included n => rfl
    | excluded n => exact Count.clamp_of_le first
  · cases upper with
    | unbounded | excluded n => rfl
    | included n => exact Count.clamp_of_le last

theorem slice_of_inside {lower upper : Edge} (short : s.length < Count.top)
    (ordered : lower.first ≤ upper.last s.length) (inside : upper.last s.length ≤ s.length) :
    s.slice lower upper = .ok (s.part lower.first (upper.last s.length)) := by
  rw [slice_eq, resolve_eq (by omega) (by omega)]
  exact if_neg (by omega)

/-- The limit of the counts lies behind every window, so a range that leaves a window is refused
whether or not it reaches the limit. -/
theorem slice_of_outside {lower upper : Edge} (short : s.length < Count.top)
    (outside : upper.last s.length < lower.first ∨ s.length < upper.last s.length) :
    ∃ start stop, s.slice lower upper = .error (.outOfBounds start stop s.length) := by
  have refused : (resolve lower upper s.length).2 < (resolve lower upper s.length).1 ∨
      s.length < (resolve lower upper s.length).2 := by
    cases lower <;> cases upper <;> simp only [Edge.first, Edge.last] at outside <;>
      simp only [resolve, Count.clamp] <;> omega
  rw [slice_eq]
  exact ⟨_, _, if_pos refused⟩

/-! ### Chains -/

theorem sliceAll_cons (s : Stream) (lower upper : Edge) (chain : List (Edge × Edge)) :
    s.sliceAll ((lower, upper) :: chain) =
      s.slice lower upper >>= fun view => view.sliceAll chain :=
  List.foldlM_cons

theorem foldedStart_cons (range : Nat × Nat) (ranges : List (Nat × Nat)) :
    foldedStart (range :: ranges) = range.1 + foldedStart ranges := List.sum_cons

theorem foldedStop_singleton (range : Nat × Nat) : foldedStop [range] = range.2 := Nat.zero_add _

theorem foldedStop_cons {ranges : List (Nat × Nat)} (some : ranges ≠ []) (range : Nat × Nat) :
    foldedStop (range :: ranges) = range.1 + foldedStop ranges := by
  cases ranges with
  | nil => exact absurd rfl some
  | cons next ranges => exact Nat.add_assoc ..

theorem exactRanges_ne_nil {chain : List (Edge × Edge)} (some : chain ≠ []) (length : Nat) :
    exactRanges length chain ≠ [] := by
  cases chain with
  | nil => exact absurd rfl some
  | cons range chain => exact List.cons_ne_nil _ _

/-- The last range of a nested chain lies inside the first window. -/
theorem Nested.folded {length : Nat} {ranges : List (Nat × Nat)} (nested : Nested length ranges)
    (some : ranges ≠ []) :
    foldedStart ranges ≤ foldedStop ranges ∧ foldedStop ranges ≤ length := by
  induction ranges generalizing length with
  | nil => exact absurd rfl some
  | cons range ranges ih =>
    obtain ⟨ordered, inside, later⟩ := nested
    rw [foldedStart_cons]
    cases ranges with
    | nil =>
      rw [foldedStop_singleton]
      exact ⟨ordered, inside⟩
    | cons next ranges =>
      have rest := ih later (List.cons_ne_nil _ _)
      rw [foldedStop_cons (List.cons_ne_nil _ _)]
      omega

/-- A nested chain comes to one view. -/
theorem sliceAll_of_nested (short : s.length < Count.top) {chain : List (Edge × Edge)}
    (some : chain ≠ []) (nested : Nested s.length (exactRanges s.length chain)) :
    s.sliceAll chain = .ok (s.part (foldedStart (exactRanges s.length chain))
      (foldedStop (exactRanges s.length chain))) := by
  induction chain generalizing s with
  | nil => exact absurd rfl some
  | cons range chain ih =>
    obtain ⟨lower, upper⟩ := range
    obtain ⟨ordered, inside, later⟩ := nested
    have size := length_part s lower.first (upper.last s.length)
    rw [sliceAll_cons, slice_of_inside short ordered inside, exactRanges, foldedStart_cons]
    cases chain with
    | nil =>
      rw [exactRanges, foldedStop_singleton]
      rfl
    | cons next chain =>
      rw [← size] at later
      have rest := ih (by omega) (List.cons_ne_nil _ _) later
      rw [foldedStop_cons (exactRanges_ne_nil (List.cons_ne_nil _ _) _), ← part_part, ← size]
      exact rest

/-- The first range that leaves the view it is part of ends the chain. -/
theorem sliceAll_of_not_nested (short : s.length < Count.top) {chain : List (Edge × Edge)}
    (outside : ¬Nested s.length (exactRanges s.length chain)) :
    ∃ start stop limit, s.sliceAll chain = .error (.outOfBounds start stop limit) := by
  induction chain generalizing s with
  | nil => exact absurd trivial outside
  | cons range chain ih =>
    obtain ⟨lower, upper⟩ := range
    rw [sliceAll_cons]
    by_cases here : lower.first ≤ upper.last s.length ∧ upper.last s.length ≤ s.length
    · obtain ⟨ordered, inside⟩ := here
      have size := length_part s lower.first (upper.last s.length)
      rw [slice_of_inside short ordered inside]
      refine ih (by omega) fun nested => outside ⟨ordered, inside, ?_⟩
      rwa [size] at nested
    · have leaves : upper.last s.length < lower.first ∨ s.length < upper.last s.length := by omega
      obtain ⟨start, stop, refused⟩ := slice_of_outside short leaves
      rw [refused]
      exact ⟨start, stop, s.length, rfl⟩

/-- A range of which an edge is the largest count lies in no window. -/
theorem not_nested_of_top {length : Nat} (short : length < Count.top) {chain : List (Edge × Edge)}
    {range : Edge × Edge} (member : range ∈ chain)
    (top : range.1.Names Count.top ∨ range.2.Names Count.top) :
    ¬Nested length (exactRanges length chain) := by
  induction chain generalizing length with
  | nil => cases member
  | cons next chain ih =>
    rintro ⟨ordered, inside, later⟩
    rcases List.mem_cons.mp member with rfl | behind
    · rcases top with lower | upper
      · have large := lower.le_first
        omega
      · have large := upper.le_last length
        omega
    · exact ih (by omega) behind later

/-! ### Places -/

theorem ahead_part_seek (start : Nat) {stop : Nat} (inside : stop ≤ s.length) (position : Nat) :
    ((s.part start stop).seek position).ahead =
      (s.visible.drop (start + position)).take (stop - start - position) := by
  rw [ahead_seek, visible_part start inside, List.drop_take, List.drop_drop]

/-- Bytes inside the window can be written. -/
theorem OnVector.room (vector : s.OnVector) {count : Nat} (inside : s.position + count ≤ s.length) :
    s.Room count := by
  have least := base_add_length_le_of_within vector.within
  have short := vector.short
  constructor
  · unfold Fits
    unfold length at inside
    split
    · trivial
    case h_2 start stop window =>
      rw [window] at inside
      exact inside
  · unfold absolute
    omega

theorem OnVector.part (vector : s.OnVector) {start stop : Nat} (ordered : start ≤ stop)
    (inside : stop ≤ s.length) : (s.part start stop).OnVector :=
  ⟨sound_part vector.toSound ordered inside, vector.short⟩

theorem liesAt_part (vector : s.OnVector) {start stop : Nat} (ordered : start ≤ stop)
    (inside : stop ≤ s.length) : s.LiesAt start stop (s.part start stop) where
  window := rfl
  atStart := rfl
  noBits := rfl
  reads position count fits := by
    have whole := vector.toSound
    have size := length_visible whole
    have view := ((vector.part ordered inside).seek position).toSound
    refine ⟨(s.visible.drop (start + position)).take count, ?_, ?_⟩
    · rw [readExact_eq view, ahead_part_seek start inside, if_pos, List.take_take,
        Nat.min_eq_left (by omega)]
      · rfl
      · rw [List.length_take, List.length_drop]
        omega
    · rw [readExact_eq (whole.seek _), ahead_seek, if_pos]
      · rfl
      · rw [List.length_drop]
        omega
  writes position bytes fits := by
    have view := (vector.part ordered inside).seek position
    have size := length_part s start stop
    have roomInView : ((s.part start stop).seek position).Room bytes.length :=
      view.room (by rw [length_seek, size]; exact fits)
    have roomInWhole : (s.seek (start + position)).Room bytes.length :=
      (vector.seek _).room (by rw [length_seek, seek_position]; omega)
    obtain ⟨t, through, -⟩ := writeBytes_of_room view.sink roomInView
    obtain ⟨u, direct, -⟩ := writeBytes_of_room (vector.seek _).sink roomInWhole
    have place : ((s.part start stop).seek position).absolute =
        (s.seek (start + position)).absolute := Nat.add_assoc ..
    have same := (of_writeBytes through).1
    rw [place] at same
    exact ⟨t, u, through, direct,
      Except.ok.inj (same.symm.trans (of_writeBytes direct).1)⟩

/--
A chain of views is made exactly when every range, in exact numbers, lies inside the view it is part
of. It then comes to the one view of the first window from the sum of all starts to the sum of the
starts before the last range and where that range stops. A range with the largest count for an edge
is refused.
-/
theorem sliceAll_folds (vector : s.OnVector) (chain : List (Edge × Edge)) :
    let ranges := exactRanges s.length chain
    ((∃ view, s.sliceAll chain = .ok view) ↔ Nested s.length ranges) ∧
    (∀ view, chain ≠ [] → s.sliceAll chain = .ok view →
      s.slice (.included (foldedStart ranges)) (.excluded (foldedStop ranges)) = .ok view ∧
      s.LiesAt (foldedStart ranges) (foldedStop ranges) view) ∧
    ((∃ range ∈ chain, range.1.Names Count.top ∨ range.2.Names Count.top) →
      ∃ start stop limit, s.sliceAll chain = .error (.outOfBounds start stop limit)) := by
  intro ranges
  have short := vector.length_lt_top
  have nested_of_made (view : Stream) (made : s.sliceAll chain = .ok view) :
      Nested s.length ranges := by
    refine Classical.byContradiction fun outside => ?_
    obtain ⟨_, _, _, refused⟩ := sliceAll_of_not_nested short outside
    cases made.symm.trans refused
  refine ⟨⟨fun ⟨view, made⟩ => nested_of_made view made, fun nested => ?_⟩, ?_, ?_⟩
  · by_cases some : chain = []
    · rw [some]
      exact ⟨s, rfl⟩
    · exact ⟨_, sliceAll_of_nested short some nested⟩
  · intro view some made
    have nested := nested_of_made view made
    obtain ⟨ordered, inside⟩ := nested.folded (exactRanges_ne_nil some _)
    cases made.symm.trans (sliceAll_of_nested short some nested)
    exact ⟨slice_between ordered inside, liesAt_part vector ordered inside⟩
  · rintro ⟨range, member, top⟩
    exact sliceAll_of_not_nested short (not_nested_of_top short member top)

/-- The last seven of eight bytes. -/
def sevenOfEight : Stream := ⟨.ofBytes [0, 1, 2, 3, 4, 5, 6, 7], ⟨.slice 1 8, 5, ⟨1, 1⟩⟩⟩

theorem onVector_sevenOfEight : sevenOfEight.OnVector :=
  ⟨⟨⟨8, rfl⟩, by decide, by decide⟩, by decide⟩

/-- All kinds of edges on the way to two bytes, and a chain that is refused. -/
theorem sliceAll_folds_sevenOfEight :
    (∃ view, sevenOfEight.sliceAll [(.included 1, .unbounded), (.excluded 0, .included 4),
          (.unbounded, .excluded 2)] = .ok view ∧
        sevenOfEight.slice (.included 2) (.excluded 4) = .ok view ∧ sevenOfEight.LiesAt 2 4 view) ∧
      ∃ start stop limit, sevenOfEight.sliceAll [(.unbounded, .unbounded),
        (.included 2, .included Count.top)] = .error (.outOfBounds start stop limit) := by
  obtain ⟨made, folds, -⟩ := sliceAll_folds onVector_sevenOfEight
    [(.included 1, .unbounded), (.excluded 0, .included 4), (.unbounded, .excluded 2)]
  obtain ⟨-, -, refused⟩ := sliceAll_folds onVector_sevenOfEight
    [(.unbounded, .unbounded), (.included 2, .included Count.top)]
  obtain ⟨view, there⟩ := made.mpr ⟨by decide, by decide, by decide, by decide, by decide,
    by decide, trivial⟩
  have top : (Edge.included 2, Edge.included Count.top) ∈
      [(Edge.unbounded, Edge.unbounded), (.included 2, .included Count.top)] :=
    List.mem_cons_of_mem _ List.mem_cons_self
  exact ⟨⟨view, there, folds view (List.cons_ne_nil _ _) there⟩, refused ⟨_, top, .inr (.inl rfl)⟩⟩

end Stream

end PackageAssets
