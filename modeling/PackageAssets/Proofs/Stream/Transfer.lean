import PackageAssets.Proofs.Stream.Guarded
import PackageAssets.Proofs.Stream.Room
import PackageAssets.Proofs.Stream.Seen

/-!
# Copying through a block

What is left in one cursor is copied to another one block by block: a block is
read, then written. Where the places do not overlap the blocks do not show: the
bytes arrive as if written at once. Where there is no room for all of them, whole
blocks arrive as long as they fit, and the block that did not fit is consumed.
-/
namespace PackageAssets

namespace Stream

variable {s t u g : Stream} {bytes : List UInt8}

/-- How many bytes can be written at the position: to the end of a slice, and through a root window
to the end of the longest vector. -/
def roomLeft (s : Stream) : Nat :=
  match s.window with
  | .root => Source.longestVector - s.position
  | .slice start stop => stop - start - s.position

theorem room_iff_le (sink : s.Sink) {count : Nat} (some : 0 < count) :
    s.Room count ↔ count ≤ s.roomLeft := by
  have within := sink.within
  have addressable := sink.addressable
  unfold Room Fits roomLeft absolute
  cases window : s.window with
  | root =>
    simp only [Window.base, true_and]
    omega
  | slice start stop =>
    have small := addressable start stop window
    rw [window] at within
    have ordered : start ≤ stop := within.1
    simp only [Window.base]
    omega

theorem Put.roomLeft (put : s.Put bytes t) : t.roomLeft = s.roomLeft - bytes.length := by
  unfold Stream.roomLeft
  rw [put.window, put.position]
  cases s.window with
  | root => exact Nat.sub_add_eq ..
  | slice start stop => exact Nat.sub_add_eq ..

/-- Why a slice takes no more bytes: it has an end. -/
def Refusal (s : Stream) (e : IoError) : Prop :=
  ∀ first last, s.window = .slice first last → ∃ start stop limit, e = .outOfBounds start stop limit

theorem Put.refusal_iff (put : s.Put bytes t) (e : IoError) : t.Refusal e ↔ s.Refusal e := by
  rw [Refusal, Refusal, put.window]

theorem writeBytes_of_crowded (sink : s.Sink) (crowded : ¬s.Room bytes.length) :
    ∃ e, writeBytes bytes s = .error e s ∧ s.Refusal e := by
  by_cases fits : s.Fits bytes.length
  · have long := Nat.lt_of_not_le fun short => crowded ⟨fits, short⟩
    obtain ⟨e, failed⟩ := writeBytes_of_not_room sink crowded
    exact ⟨e, failed, fun _ _ slice => nomatch slice.symm.trans (fits.root_of_long sink long)⟩
  · rw [writeBytes_eq, if_pos ((crosses_iff sink _).mpr fits)]
    exact ⟨_, rfl, fun _ _ _ => ⟨_, _, _, rfl⟩⟩

/-- A root window refuses bytes whose end is no count. -/
theorem writeBytes_of_overflow (sink : s.Sink) (root : s.window = .root)
    (beyond : Count.bound ≤ s.position + bytes.length) :
    writeBytes bytes s = .error .positionOverflow s := by
  have fits : s.Fits bytes.length := by simp only [Fits, root]
  have place : s.absolute = s.position := by simp [absolute, root, Window.base]
  rw [← place] at beyond
  have long : Source.longestVector < s.absolute + bytes.length :=
    Nat.lt_of_lt_of_le (by decide) beyond
  obtain ⟨capacity, inMemory⟩ := sink.inMemory
  obtain ⟨e, refused, because⟩ := Source.writeAt_memory_long inMemory long
  rw [writeBytes_eq, if_neg fun crosses => (crosses_iff sink _).mp crosses fits, refused,
    because beyond]

/-- `h` is where `g` is after `moved` bytes, and has left what `g` had behind them. -/
structure Passed (g : Stream) (moved : Nat) (h : Stream) : Prop where
  cursor : h.cursor = (g.seek (g.position + moved)).cursor
  ahead : h.ahead = g.ahead.drop moved

namespace Passed

variable {h : Stream} {moved : Nat} (passed : g.Passed moved h)

include passed

theorem window : h.window = g.window := by
  rw [Stream.window, passed.cursor]
  rfl

theorem position : h.position = g.position + moved := congrArg Cursor.position passed.cursor

theorem absolute : h.absolute = g.absolute + moved := by
  rw [Stream.absolute, passed.window, passed.position, ← Nat.add_assoc]
  rfl

theorem remaining (before : g.Sound) (after : h.Sound) : h.remaining = g.remaining - moved := by
  rw [← length_ahead after, passed.ahead, List.length_drop, length_ahead before]

theorem seek_cursor (more : Nat) :
    (h.seek (h.position + more)).cursor = (g.seek (g.position + (moved + more))).cursor := by
  rw [passed.position, Nat.add_assoc, seek, passed.cursor]
  rfl

end Passed

/-- Apart from what is written first, what comes later lies apart from what is left then. -/
theorem Apart.next (put : t.Put bytes u) {h : Stream} (passed : g.Passed bytes.length h)
    (left : h.remaining = g.remaining - bytes.length) (some : bytes.length ≤ g.remaining)
    {more : Nat} (apart : t.Apart g (bytes.length + more)) : u.Apart h more where
  disjoint := by
    have disjoint := apart.disjoint
    rw [put.absolute, passed.absolute, left]
    omega
  fixed root grows := by
    have longer := put.length_le
    rw [put.absolute] at grows
    rw [passed.window]
    exact apart.fixed (put.window.symm.trans root) (by omega)

end Stream

namespace Session

/-- How many of the bytes left arrive where there is room: all, or whole blocks as long as they
fit. -/
def arriving (room left : Nat) : Nat :=
  if left ≤ room then left else room / copyBlock * copyBlock

/-- The cursors are on one source. -/
def OnOneSource (s : Session) (first second : Nat) : Prop :=
  s.cursors[first]?.map Placed.source = s.cursors[second]?.map Placed.source

/-- Two cursors of a session over memory, and their streams. -/
structure Facing (s : Session) (taker giver : Nat) (t g : Stream) : Prop where
  distinct : taker ≠ giver
  taking : s.stream? taker = some t
  giving : s.stream? giver = some g
  sink : t.Sink
  sound : g.Sound

/-- The session in which the giver has moved on and the taker is left as `t`. -/
def handedOver (s : Session) (taker giver : Nat) (g : Stream) (moved : Nat) (t : Stream) :
    Session :=
  (s.putStream giver (g.seek (g.position + moved))).putStream taker t

variable {s : Session} {taker giver : Nat} {t u g : Stream} {bytes : List UInt8}

/-! ### Two streams of a session -/

theorem stream?_of_placed {number : Nat} {p : Placed} {source : Source}
    (placed : s.cursors[number]? = some p) (home : s.sources[p.source]? = some source) :
    s.stream? number = some ⟨source, p.cursor⟩ := by
  simp [stream?, placed, home]

theorem onOneSource_iff {p q : Placed} (atTaker : s.cursors[taker]? = some p)
    (atGiver : s.cursors[giver]? = some q) :
    s.OnOneSource taker giver ↔ p.source = q.source := by
  simp [OnOneSource, atTaker, atGiver]

section HandedOver

variable {p q : Placed} (facing : s.Facing taker giver t g) (moved : Nat) (u : Stream)

include facing

theorem sources_handedOver (atTaker : s.cursors[taker]? = some p) :
    (s.handedOver taker giver g moved u).sources = s.sources.set p.source u.source := by
  have sources := sources_putStream facing.giving (w := g.seek (g.position + moved)) rfl
  have still := (cursor_putStream_ne facing.distinct (g.seek (g.position + moved))).trans atTaker
  rw [handedOver, putStream_eq still, sources]

theorem taker_handedOver (atTaker : s.cursors[taker]? = some p) :
    (s.handedOver taker giver g moved u).cursors[taker]? = some { p with cursor := u.cursor } :=
  cursor_putStream ((cursor_putStream_ne facing.distinct _).trans atTaker) u

theorem giver_handedOver (atGiver : s.cursors[giver]? = some q) :
    (s.handedOver taker giver g moved u).cursors[giver]? =
      some { q with cursor := (g.seek (g.position + moved)).cursor } :=
  (cursor_putStream_ne facing.distinct.symm u).trans (cursor_putStream atGiver _)

theorem cursors_handedOver (atTaker : s.cursors[taker]? = some p)
    (atGiver : s.cursors[giver]? = some q) :
    (s.handedOver taker giver g moved u).cursors =
      (s.cursors.set giver { q with cursor := (g.seek (g.position + moved)).cursor }).set taker
        { p with cursor := u.cursor } := by
  have still := (cursor_putStream_ne facing.distinct (g.seek (g.position + moved))).trans atTaker
  rw [handedOver, putStream_eq still, putStream_eq atGiver]

theorem taking_handedOver :
    (s.handedOver taker giver g moved u).stream? taker = some u := by
  obtain ⟨p, atTaker, home, -⟩ := of_stream? facing.taking
  obtain ⟨inside, -⟩ := List.getElem?_eq_some_iff.mp home
  refine stream?_of_placed (taker_handedOver facing moved u atTaker) ?_
  rw [sources_handedOver facing moved u atTaker]
  exact List.getElem?_set_self inside

theorem onOneSource_handedOver :
    (s.handedOver taker giver g moved u).OnOneSource taker giver ↔ s.OnOneSource taker giver := by
  obtain ⟨p, atTaker, -⟩ := of_stream? facing.taking
  obtain ⟨q, atGiver, -⟩ := of_stream? facing.giving
  rw [onOneSource_iff (taker_handedOver facing moved u atTaker)
    (giver_handedOver facing moved u atGiver), onOneSource_iff atTaker atGiver]

/-- A giver on the taker's source sees the source that the taker leaves. -/
theorem giving_of_onOneSource (one : s.OnOneSource taker giver) :
    g.source = t.source ∧ (s.handedOver taker giver g moved u).stream? giver =
      some ((g.withSource u.source).seek (g.position + moved)) := by
  obtain ⟨p, atTaker, takerSource, -⟩ := of_stream? facing.taking
  obtain ⟨q, atGiver, giverSource, -⟩ := of_stream? facing.giving
  obtain ⟨inside, -⟩ := List.getElem?_eq_some_iff.mp takerSource
  have same := (onOneSource_iff atTaker atGiver).mp one
  constructor
  · rw [same, giverSource] at takerSource
    exact Option.some.inj takerSource
  · refine stream?_of_placed (giver_handedOver facing moved u atGiver) ?_
    rw [sources_handedOver facing moved u atTaker, ← same]
    exact List.getElem?_set_self inside

/-- A giver on another source still sees its own one. -/
theorem giving_of_not_onOneSource (two : ¬s.OnOneSource taker giver) :
    (s.handedOver taker giver g moved u).stream? giver =
      some (g.seek (g.position + moved)) := by
  obtain ⟨p, atTaker, -⟩ := of_stream? facing.taking
  obtain ⟨q, atGiver, giverSource, -⟩ := of_stream? facing.giving
  rw [onOneSource_iff atTaker atGiver] at two
  refine stream?_of_placed (giver_handedOver facing moved u atGiver) ?_
  rw [sources_handedOver facing moved u atTaker, List.getElem?_set_ne two]
  exact giverSource

end HandedOver

/-- After bytes were handed over the two cursors face each other again, and of what the giver had
left it has passed what was moved. -/
theorem Facing.next (facing : s.Facing taker giver t g) (put : t.Put bytes u)
    (apart : s.OnOneSource taker giver → t.Apart g bytes.length) (moved : Nat) :
    ∃ h, (s.handedOver taker giver g moved u).Facing taker giver u h ∧ g.Passed moved h := by
  have taking := taking_handedOver facing moved u
  have sink := put.sink facing.sink
  by_cases one : s.OnOneSource taker giver
  · -- the giver sees what was written, but not where it has bytes left
    obtain ⟨same, giving⟩ := giving_of_onOneSource facing moved u one
    have sound := (put.sound facing.sound same).seek (g.position + moved)
    have ahead := put.ahead_apart facing.sink facing.sound same (apart one)
    refine ⟨_, ⟨facing.distinct, taking, giving, sink, sound⟩, rfl, ?_⟩
    rw [← ahead]
    exact Stream.ahead_seek_add (g.withSource u.source) moved
  · have giving := giving_of_not_onOneSource facing moved u one
    have sound := facing.sound.seek (g.position + moved)
    exact ⟨_, ⟨facing.distinct, taking, giving, sink, sound⟩, rfl, Stream.ahead_seek_add g moved⟩

/-- Handing over twice is handing over once. -/
theorem handedOver_handedOver (facing : s.Facing taker giver t g) {first : Nat} {h : Stream}
    (again : (s.handedOver taker giver g first u).Facing taker giver u h)
    (passed : g.Passed first h) (more : Nat) (v : Stream) :
    (s.handedOver taker giver g first u).handedOver taker giver h more v =
      s.handedOver taker giver g (first + more) v := by
  obtain ⟨p, atTaker, -⟩ := of_stream? facing.taking
  obtain ⟨q, atGiver, -⟩ := of_stream? facing.giving
  have taker' := taker_handedOver facing first u atTaker
  have giver' := giver_handedOver facing first u atGiver
  have sources := sources_handedOver again more v taker'
  have cursors := cursors_handedOver again more v taker' giver'
  rw [sources_handedOver facing first u atTaker, List.set_set,
    ← sources_handedOver facing (first + more) v atTaker] at sources
  rw [cursors_handedOver facing first u atTaker atGiver, List.set_comm _ _ facing.distinct,
    List.set_set, List.set_set, passed.seek_cursor,
    ← cursors_handedOver facing (first + more) v atTaker atGiver] at cursors
  have whole := congr (congrArg Session.mk sources) cursors
  exact whole

/-! ### One block -/

/-- The taker is not touched when the giver moves. -/
theorem Facing.still_taking (facing : s.Facing taker giver t g) (position : Nat) :
    (s.putStream giver (g.seek position)).stream? taker = some t := by
  have sources := sources_putStream facing.giving (w := g.seek position) rfl
  have cursor := cursor_putStream_ne facing.distinct (s := s) (g.seek position)
  rw [stream?, sources, cursor]
  exact facing.taking

section Block

variable (facing : s.Facing taker giver t g) (rounds moved : Nat)

include facing

theorem copy_done (none : g.ahead = []) :
    copy taker giver (rounds + 1) moved s = (.ok moved, s) := by
  have read := Stream.readBytes_eq facing.sound copyBlock
  rw [none, List.take_nil, List.length_nil, Nat.min_zero, Nat.add_zero, Stream.seek_self] at read
  simp only [copy, facing.giving, read, putStream_same facing.giving]

/-- A block is read and the taker is asked to write it. -/
theorem copy_block (some : g.ahead ≠ []) :
    copy taker giver (rounds + 1) moved s =
      match Stream.writeBytes (g.ahead.take copyBlock) t with
      | .error e u => (.error e, s.handedOver taker giver g (g.ahead.take copyBlock).length u)
      | .ok () u => copy taker giver rounds (moved + (g.ahead.take copyBlock).length)
          (s.handedOver taker giver g (g.ahead.take copyBlock).length u) := by
  have read := Stream.readBytes_eq facing.sound copyBlock
  rw [← List.length_take] at read
  have taking := facing.still_taking (g.position + (g.ahead.take copyBlock).length)
  have block : g.ahead.take copyBlock ≠ [] := by
    simpa [copyBlock] using some
  generalize g.ahead.take copyBlock = bytes at read taking block ⊢
  rw [copy, facing.giving]
  dsimp only
  rw [read]
  cases bytes with
  | nil => exact absurd rfl block
  | cons b rest =>
    dsimp only
    rw [taking]
    dsimp only
    cases Stream.writeBytes (b :: rest) t <;> rfl

end Block

/-! ### All blocks -/

theorem handedOver_zero (facing : s.Facing taker giver t g) :
    s.handedOver taker giver g 0 t = s := by
  rw [handedOver, Nat.add_zero, Stream.seek_self, putStream_same facing.giving,
    putStream_same facing.taking]

theorem arriving_zero (room : Nat) : arriving room 0 = 0 := if_pos (Nat.zero_le room)

/-- A block that fits arrives. -/
theorem arriving_add {room left block : Nat} (whole : block = min copyBlock left)
    (fits : block ≤ room) :
    arriving room left = block + arriving (room - block) (left - block) := by
  unfold arriving
  unfold copyBlock at whole ⊢
  split <;> split <;> omega

/-- No byte of a block that does not fit arrives. -/
theorem arriving_of_lt {room left : Nat} (crowded : room < min copyBlock left) :
    arriving room left = 0 := by
  unfold arriving
  unfold copyBlock at crowded ⊢
  split <;> omega

/-- What a copy comes to that had moved `moved` bytes before: the bytes that arrive are put at the
taker's position, and the giver passes them and the block behind them, as far as it goes. -/
structure Delivered (s : Session) (taker giver : Nat) (t g : Stream) (moved : Nat)
    (outcome : Except IoError Nat × Session) : Prop where
  after : ∃ u, t.Put (g.ahead.take (arriving t.roomLeft g.remaining)) u ∧
    outcome.2 = s.handedOver taker giver g
      (min g.remaining (arriving t.roomLeft g.remaining + copyBlock)) u
  whole : g.remaining ≤ t.roomLeft → outcome.1 = .ok (moved + g.remaining)
  refused : t.roomLeft < g.remaining → ∃ e, outcome.1 = .error e ∧ t.Refusal e

theorem delivered_nothing (facing : s.Facing taker giver t g) (none : g.remaining = 0)
    (moved : Nat) : s.Delivered taker giver t g moved (.ok moved, s) where
  after := by
    refine ⟨t, ?_, ?_⟩
    · rw [none, arriving_zero]
      exact .refl facing.sink
    · rw [none, Nat.zero_min, handedOver_zero facing]
  whole _ := by rw [none, Nat.add_zero]
  refused crowded := by omega

section Blocks

variable (facing : s.Facing taker giver t g) {block : List UInt8}
  (first : block = g.ahead.take copyBlock)

include facing first

theorem length_block : block.length = min copyBlock g.remaining := by
  rw [first, List.length_take, Stream.length_ahead facing.sound]

/-- The block that does not fit is consumed. -/
theorem delivered_refused (crowded : t.roomLeft < block.length) {e : IoError}
    (because : t.Refusal e) (moved : Nat) :
    s.Delivered taker giver t g moved
      (.error e, s.handedOver taker giver g block.length t) := by
  have size := length_block facing first
  have none : arriving t.roomLeft g.remaining = 0 := arriving_of_lt (size ▸ crowded)
  refine ⟨⟨t, ?_, ?_⟩, fun enough => ?_, fun _ => ⟨e, rfl, because⟩⟩
  · rw [none]
    exact .refl facing.sink
  · rw [none, Nat.zero_add, Nat.min_comm, ← size]
  · omega

/-- What is delivered behind a block is delivered with it. -/
theorem delivered_behind (fits : block.length ≤ t.roomLeft) (put : t.Put block u) {h : Stream}
    (again : (s.handedOver taker giver g block.length u).Facing taker giver u h)
    (passed : g.Passed block.length h) {moved : Nat} {outcome : Except IoError Nat × Session}
    (later : (s.handedOver taker giver g block.length u).Delivered taker giver u h
      (moved + block.length) outcome) :
    s.Delivered taker giver t g moved outcome := by
  have size := length_block facing first
  have left := passed.remaining facing.sound again.sound
  have parts := arriving_add size fits
  have same : g.ahead.take block.length = block :=
    (List.prefix_iff_eq_take.mp (first ▸ List.take_prefix copyBlock g.ahead)).symm
  obtain ⟨⟨v, behind, after⟩, whole, refused⟩ := later
  rw [left, put.roomLeft] at behind after whole refused
  refine ⟨⟨v, ?_, ?_⟩, fun enough => ?_, fun crowded => ?_⟩
  · rw [parts, List.take_add, same, ← passed.ahead]
    exact put.trans behind
  · rw [after, handedOver_handedOver facing again passed, parts]
    congr 1
    omega
  · rw [whole (by omega), Nat.add_assoc, Nat.add_sub_cancel' (by omega)]
  · obtain ⟨e, failed, because⟩ := refused (by omega)
    exact ⟨e, failed, (put.refusal_iff e).mp because⟩

end Blocks

/-- The copy ends by itself: it takes no more rounds than there are bytes left, and one to see that
there are none. -/
theorem copy_delivers (facing : s.Facing taker giver t g)
    (apart : s.OnOneSource taker giver → 0 < arriving t.roomLeft g.remaining →
      t.Apart g (arriving t.roomLeft g.remaining)) (moved : Nat) :
    ∃ outcome, (∀ rounds, g.remaining ≤ rounds →
      copy taker giver (rounds + 1) moved s = outcome) ∧
      s.Delivered taker giver t g moved outcome := by
  -- on the bytes left in the giver
  induction left : g.remaining using Nat.strongRecOn generalizing s t g moved with
  | ind total ih =>
    by_cases none : g.ahead = []
    · have nothing : g.remaining = 0 := by
        rw [← Stream.length_ahead facing.sound, none, List.length_nil]
      exact ⟨_, fun rounds _ => copy_done facing rounds moved none,
        delivered_nothing facing nothing moved⟩
    have step (rounds : Nat) := copy_block facing rounds moved none
    generalize first : g.ahead.take copyBlock = block at step
    -- a block that is read is not empty, so fewer bytes are left behind it
    have size := length_block facing first.symm
    have some : 0 < block.length := by
      have some := List.length_pos_iff.mpr none
      rw [Stream.length_ahead facing.sound] at some
      unfold copyBlock at size
      omega
    have room := Stream.room_iff_le facing.sink some
    by_cases fits : block.length ≤ t.roomLeft
    · obtain ⟨u, written, put⟩ := Stream.writeBytes_of_room facing.sink (room.mpr fits)
      have parts := arriving_add size fits
      have together (one : s.OnOneSource taker giver) := apart one (by omega)
      obtain ⟨h, again, passed⟩ :=
        facing.next put (fun one => (together one).mono (by omega)) block.length
      have fewer := passed.remaining facing.sound again.sound
      rw [← fewer, ← put.roomLeft] at parts
      have later (one : (s.handedOver taker giver g block.length u).OnOneSource taker giver) :
          u.Apart h (arriving u.roomLeft h.remaining) :=
        .next put passed fewer (by omega)
          (parts ▸ together ((onOneSource_handedOver facing block.length u).mp one))
      obtain ⟨outcome, ends, delivered⟩ :=
        ih _ (by omega) again (fun one _ => later one) (moved + block.length) rfl
      refine ⟨outcome, fun rounds enough => ?_,
        delivered_behind facing first.symm fits put again passed delivered⟩
      obtain ⟨more, rfl⟩ : ∃ more, rounds = more + 1 := ⟨rounds - 1, by omega⟩
      rw [step, written]
      exact ends more (by omega)
    · obtain ⟨e, failed, because⟩ :=
        Stream.writeBytes_of_crowded facing.sink fun free => fits (room.mp free)
      refine ⟨_, fun rounds _ => ?_,
        delivered_refused facing first.symm (Nat.lt_of_not_le fits) because moved⟩
      rw [step, failed]

/-- A first block whose end is no count is refused by a root window, and consumed. -/
theorem copy_of_overflow (facing : s.Facing taker giver t g) (root : t.window = .root)
    (some : 0 < g.remaining) (beyond : Count.bound ≤ t.position + min copyBlock g.remaining)
    (rounds moved : Nat) :
    copy taker giver (rounds + 1) moved s =
      (.error .positionOverflow, s.handedOver taker giver g (min copyBlock g.remaining) t) := by
  have size := length_block facing rfl
  have left : g.ahead ≠ [] := by
    intro none
    rw [← Stream.length_ahead facing.sound, none] at some
    exact absurd some (Nat.lt_irrefl 0)
  rw [copy_block facing rounds moved left,
    Stream.writeBytes_of_overflow facing.sink root (size ▸ beyond)]
  dsimp only
  rw [size]

/-! ### A stream of its own -/

theorem facing_beside (sink : t.Sink) (sound : g.Sound) :
    (Session.mk [t.source, g.source] [⟨0, t.cursor⟩, ⟨1, g.cursor⟩]).Facing 0 1 t g :=
  ⟨Nat.zero_ne_one, rfl, rfl, sink, sound⟩

end Session

/-- To copy a stream on another source is to write what it has left. -/
theorem Stream.emits_writeStream {g : Stream} (sound : g.Sound) :
    Emits (discard (writeStream g)) g.ahead := by
  intro t sink
  have facing := Session.facing_beside sink sound
  have elsewhere : ¬(Session.mk [t.source, g.source]
      [⟨0, t.cursor⟩, ⟨1, g.cursor⟩]).OnOneSource 0 1 := fun one => nomatch Option.some.inj one
  obtain ⟨⟨result, after⟩, ends, ⟨u, put, left⟩, whole, refused⟩ :=
    Session.copy_delivers facing (fun one => absurd one elsewhere) 0
  have copied := ends g.remaining (Nat.le_refl _)
  have size := length_ahead sound
  dsimp only at left whole refused
  have last : after.stream? 0 = some u := left ▸ Session.taking_handedOver facing _ u
  by_cases enough : g.remaining ≤ t.roomLeft
  · have written : writeStream g t = .ok (0 + g.remaining) u := by
      rw [writeStream, copied, whole enough]
      simp only [last, Option.getD_some]
    rw [Session.arriving, if_pos enough, ← size, List.take_length] at put
    rw [discard_of_ok written]
    exact .whole put
  · obtain ⟨e, failed, because⟩ := refused (Nat.lt_of_not_le enough)
    have stopped : writeStream g t = .error e u := by
      rw [writeStream, copied, failed]
      simp only [last, Option.getD_some]
    rw [discard_of_error stopped]
    have crowded : ¬t.Room g.ahead.length := by
      rw [room_iff_le sink (by omega), size]
      exact enough
    by_cases fits : t.Fits g.ahead.length
    · have long := Nat.lt_of_not_le fun short => crowded ⟨fits, short⟩
      exact .overflow (fits.root_of_long sink long) long
    · obtain ⟨first, stop, slice⟩ := slice_of_not_fits fits
      obtain ⟨_, _, _, rfl⟩ := because first stop slice
      exact .cut (List.take_prefix _ _) fits put

namespace Session

variable {s : Session} {taker giver : Nat} {t u g : Stream} {bytes : List UInt8}

/--
Copying what is left in one cursor to another one that has room for it is writing it at once: the
bytes are put at the taker's position, the giver is at its end, or where it was behind it, and
nothing else changes. In a slice without room for all, whole blocks are put as long as they fit, and
the giver has passed one block more, as far as it goes. A root window has room up to the end of the
longest vector; where not even the end of the first block is a count, that block is refused. The
copy ends by itself. What is written must not fall on what is still to be read, nor move its end.
-/
theorem copyFrom_delivers (facing : s.Facing taker giver t g)
    (apart : s.OnOneSource taker giver → 0 < arriving t.roomLeft g.remaining →
      t.Apart g (arriving t.roomLeft g.remaining)) :
    (g.remaining ≤ t.roomLeft → ∃ u, t.Put g.ahead u ∧
      s.answer taker (.copyFrom giver) =
        (.ofNat g.remaining, s.handedOver taker giver g g.remaining u)) ∧
    (∀ first last, t.window = .slice first last → t.roomLeft < g.remaining →
      ∃ start stop limit u, t.Put (g.ahead.take (copyBlock * (t.roomLeft / copyBlock))) u ∧
        s.answer taker (.copyFrom giver) =
          (.failed (.outOfBounds start stop limit), s.handedOver taker giver g
            (min g.remaining (copyBlock * (t.roomLeft / copyBlock + 1))) u)) ∧
    (t.window = .root → 0 < g.remaining →
      Count.bound ≤ t.position + min copyBlock g.remaining →
        s.answer taker (.copyFrom giver) = (.failed .positionOverflow,
          s.handedOver taker giver g (min copyBlock g.remaining) t)) ∧
    ∀ rounds, g.remaining ≤ rounds →
      copy taker giver (rounds + 1) 0 s = copy taker giver (g.remaining + 1) 0 s := by
  obtain ⟨⟨result, last⟩, ends, ⟨u, put, after⟩, whole, refused⟩ := copy_delivers facing apart 0
  have copied := ends g.remaining (Nat.le_refl _)
  have size := Stream.length_ahead facing.sound
  dsimp only at after whole refused
  unfold arriving at put after
  refine ⟨fun enough => ⟨u, ?_, ?_⟩, fun first last slice crowded => ?_,
    fun root some beyond => ?_, fun rounds more => ?_⟩
  · rwa [if_pos enough, ← size, List.take_length] at put
  · rw [if_pos enough, Nat.min_eq_left (Nat.le_add_right _ _)] at after
    rw [whole enough, after, Nat.zero_add] at copied
    simp only [answer, facing.taking, facing.giving, copied]
  · rw [if_neg (Nat.not_le.mpr crowded), Nat.mul_comm] at put after
    obtain ⟨e, failed, because⟩ := refused crowded
    obtain ⟨start, stop, limit, rfl⟩ := because first last slice
    refine ⟨start, stop, limit, u, put, ?_⟩
    rw [failed, after, ← Nat.mul_succ] at copied
    simp only [answer, facing.taking, facing.giving, copied]
  · have stopped := copy_of_overflow facing root some beyond g.remaining 0
    simp only [answer, facing.taking, facing.giving, stopped]
  · rw [ends rounds more, copied]

/-- A source of three bytes: its growing end, and a view of its first two bytes. -/
def backOntoItself : Session :=
  ⟨[.ofBytes [1, 2, 3]], [⟨0, ⟨.root, 3, .none⟩⟩, ⟨0, .start (.slice 0 2)⟩]⟩

/-- A view of 5000 bytes, and another source of 9000 bytes. -/
def roomForOneBlock : Session :=
  ⟨[.ofBytes (List.replicate 5000 0), .ofBytes (List.replicate 9000 7)],
    [⟨0, .start (.slice 0 5000)⟩, ⟨1, .root⟩]⟩

theorem facing_backOntoItself :
    backOntoItself.Facing 0 1 ⟨.ofBytes [1, 2, 3], ⟨.root, 3, .none⟩⟩
      ⟨.ofBytes [1, 2, 3], .start (.slice 0 2)⟩ where
  distinct := Nat.zero_ne_one
  taking := rfl
  giving := rfl
  sink := ⟨⟨3, rfl⟩, trivial, nofun⟩
  sound := ⟨⟨3, rfl⟩, by decide, by decide⟩

theorem facing_roomForOneBlock :
    roomForOneBlock.Facing 0 1 ⟨.ofBytes (List.replicate 5000 0), .start (.slice 0 5000)⟩
      (.ofBytes (List.replicate 9000 7)) where
  distinct := Nat.zero_ne_one
  taking := rfl
  giving := rfl
  sink := by
    refine ⟨⟨_, rfl⟩, ⟨Nat.zero_le _, ?_⟩, ?_⟩
    · exact Nat.le_of_eq List.length_replicate.symm
    · rintro start stop ⟨⟩
      decide
  sound := by
    refine Stream.sound_ofBytes ?_
    rw [List.length_replicate]
    decide

/-- A source is appended to itself, and one block of three arrives where there is room for one. -/
theorem copyFrom_delivers_both :
    (∃ u, (Stream.mk (.ofBytes [1, 2, 3]) ⟨.root, 3, .none⟩).Put [1, 2] u ∧
      backOntoItself.answer 0 (.copyFrom 1) = (.ofNat 2, backOntoItself.handedOver 0 1
        ⟨.ofBytes [1, 2, 3], .start (.slice 0 2)⟩ 2 u)) ∧
    ∃ first last limit u,
      (Stream.mk (.ofBytes (List.replicate 5000 0)) (.start (.slice 0 5000))).Put
        (List.replicate 4096 7) u ∧
      roomForOneBlock.answer 0 (.copyFrom 1) = (.failed (.outOfBounds first last limit),
        roomForOneBlock.handedOver 0 1 (.ofBytes (List.replicate 9000 7)) 8192 u) := by
  obtain ⟨whole, -⟩ := copyFrom_delivers facing_backOntoItself fun _ _ => ⟨by decide, nofun⟩
  have elsewhere : ¬roomForOneBlock.OnOneSource 0 1 := fun one => nomatch Option.some.inj one
  obtain ⟨-, part, -⟩ := copyFrom_delivers facing_roomForOneBlock fun one => absurd one elsewhere
  have bytes : (Stream.ofBytes (List.replicate 9000 7)).ahead = List.replicate 9000 7 := rfl
  have room : (Stream.mk (.ofBytes (List.replicate 5000 0))
    (.start (.slice 0 5000))).roomLeft = 5000 := rfl
  have blocks : min (copyBlock * (5000 / copyBlock)) 9000 = 4096 := by decide
  rw [← Stream.length_ahead facing_roomForOneBlock.sound, bytes, List.length_replicate,
    List.take_replicate, room, blocks] at part
  obtain ⟨first, last, limit, u, put, answer⟩ := part 0 5000 rfl (by decide)
  exact ⟨whole (by decide), first, last, limit, u, put, answer⟩

/-- A cursor on nothing at the largest count, and one byte. -/
def atTop : Session :=
  ⟨[.empty, .ofBytes [0xAA]], [⟨0, ⟨.root, Count.top, .none⟩⟩, ⟨1, .root⟩]⟩

/-- A root window is not enough for room: one byte at the largest count is refused, and consumed. -/
theorem atTop_refuses :
    atTop.answer 0 (.copyFrom 1) = (.failed .positionOverflow,
      ⟨[.empty, .ofBytes [0xAA]], [⟨0, ⟨.root, Count.top, .none⟩⟩, ⟨1, ⟨.root, 1, .none⟩⟩]⟩) :=
  rfl

end Session

end PackageAssets
