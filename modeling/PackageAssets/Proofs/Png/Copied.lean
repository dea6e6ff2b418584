import PackageAssets.Proofs.Png.Grammar
import PackageAssets.Proofs.Png.InStep
import PackageAssets.Proofs.Stream.Copied

/-!
# Reading PNG from a file

A walk over a file does what a walk over a copy of the file in memory does: it
never leaves the file, so its disk has no position to refuse.
-/
namespace PackageAssets.Png

open PackageAssets.Stream (Anything Copied)

/-- Two readers that found the same, one in a file and one in its copy. -/
abbrev Copies : Decoder → Decoder → Prop := Reading.Alike Copied Eq

/-- A step of readers that yields the same on a file and on its copy. -/
abbrev Follows {α : Type} (step : DecoderM α) (r r' : Decoder) : Prop :=
  InStep Anything Copies (Equally Copies) (step r) (step r')

/-- Two readers' views of one chunk. -/
structure ChunkCopied (c d : Chunk) : Prop where
  name : c.name = d.name
  length : c.length = d.length
  checksum : c.checksum = d.checksum
  data : Copied c.data d.data

section

variable {r r' : Decoder} (copies : Copies r r')

include copies

theorem onStream_follows {α : Type} {step : StreamM α}
    (run : Stream.Follows step r.stream r'.stream) :
    Follows (Reading.onStream step : DecoderM α) r r' :=
  Reading.onStream_equally copies (fun _ _ => trivial) run

theorem readSignature_follows : Follows readSignature r r' := by
  unfold readSignature
  refine (onStream_follows copies (copies.stream.readBytes _)).next fun found r r' copies => ?_
  refine .ite (fun _ => .stop trivial copies) fun _ => ?_
  exact .ite (fun _ => .error trivial copies) fun _ => .pure copies ()

end

/-- Readers that start, one in a file and one in its copy. -/
theorem start_copies {s t : Stream} (copied : Copied s t) (options : DecoderOptions) :
    Copies (Decoder.start s options) (Decoder.start t options) := ⟨copied, rfl, rfl⟩

/-! ### Payloads -/

theorem checksumBlocks_follows {s t : Stream} (copied : Copied s t) (rounds : Nat) (crc : UInt32) :
    Stream.Follows (checksumBlocks rounds crc) s t := by
  induction rounds generalizing s t crc with
  | zero => exact .pure copied crc
  | succ rounds ih =>
    refine (copied.readBytes checksumBlock).next fun block s t copied => ?_
    exact .ite (fun _ => .pure copied crc) fun _ => ih copied _

theorem outcomeOf_keepPosition {α : Type} (step : StreamM α) (s : Stream) :
    outcomeOf (Stream.keepPosition step s) = outcomeOf (step s) := by
  unfold Stream.keepPosition
  cases step s <;> rfl

theorem outcomeOf_checksum {s t : Stream} (copied : Copied s t) (name : List UInt8) :
    outcomeOf (checksum name s) = outcomeOf (checksum name t) := by
  unfold checksum
  rw [outcomeOf_keepPosition, outcomeOf_keepPosition, copied.remaining_eq]
  have run : Stream.Follows (do
      let crc ← checksumBlocks (s.remaining + 1) (Crc32.update Crc32.initial name)
      return ~~~crc) s t :=
    (checksumBlocks_follows copied _ _).next fun _ _ _ copied => .pure copied _
  exact run.outcomeOf_eq

theorem confirmChunk_follows {r r' : Decoder} (copies : Copies r r') {c d : Chunk}
    (same : ChunkCopied c d) :
    InStep Anything Copies (fun c d r r' => ChunkCopied c d ∧ Copies r r') (confirmChunk c r)
      (confirmChunk d r') := by
  obtain ⟨name, length, v, stored⟩ := c
  obtain ⟨_, _, w, _⟩ := d
  obtain ⟨rfl, rfl, rfl, copied⟩ := same
  have kept {r r' : Decoder} (copies : Copies r r') :
      InStep Anything Copies (fun c d r r' => ChunkCopied c d ∧ Copies r r')
        ((do
          Reading.note .trace .pngReader s!"Chunk {Text.ofBytes name} of {length} bytes"
          return ⟨name, length, v, stored⟩ : DecoderM Chunk) r)
        ((do
          Reading.note .trace .pngReader s!"Chunk {Text.ofBytes name} of {length} bytes"
          return ⟨name, length, w, stored⟩ : DecoderM Chunk) r') :=
    (Reading.note_inStep _ _ _ copies).next fun _ _ _ copies =>
      .ok ⟨⟨rfl, rfl, rfl, copied⟩, copies⟩
  have sums := outcomeOf_checksum copied name
  unfold confirmChunk
  refine (Reading.soFar_inStep copies).bind ?_
  rintro _ _ r r' ⟨rfl, rfl, copies⟩
  rw [← copies.found]
  refine .ite (fun _ => ?_) fun _ => kept copies
  dsimp only
  generalize checksum name v = left at sums ⊢
  generalize checksum name w = right at sums ⊢
  cases left with
  | error e _ =>
    cases right with
    | error e' _ =>
      cases sums
      exact .stop trivial copies
    | ok => cases sums
  | ok found _ =>
    cases right with
    | error => cases sums
    | ok found' _ =>
      cases sums
      exact .ite (fun _ => .stop trivial copies) fun _ => kept copies

theorem readChunk_follows {r r' : Decoder} (copies : Copies r r') :
    InStep Anything Copies (fun c d r r' => ChunkCopied c d ∧ Copies r r') (readChunk r)
      (readChunk r') := by
  rw [readChunk_confirm]
  refine (onStream_follows copies (copies.stream.readNat .big 4)).next fun length r r' copies => ?_
  refine (onStream_follows copies (copies.stream.readExact 4)).next fun name r r' copies => ?_
  refine (Reading.onStream_inStep copies (fun _ _ => trivial)
    (copies.stream.readStream length)).bind ?_
  rintro v w r r' ⟨⟨view, stream⟩, found, notes⟩
  have copies : Copies r r' := ⟨stream, found, notes⟩
  refine (onStream_follows copies (copies.stream.readNat .big 4)).next fun stored r r' copies => ?_
  exact confirmChunk_follows copies ⟨rfl, rfl, rfl, view⟩

/-! ### What is done with a chunk -/

/-- Two readings of fields that yield the same, or fail alike. -/
inductive FieldsFollow {α : Type} :
    Except Error (α × Stream) → Except Error (α × Stream) → Prop where
  | ok {a : α} {s t : Stream} (copied : Copied s t) : FieldsFollow (.ok (a, s)) (.ok (a, t))
  | error (e : Error) : FieldsFollow (.error e) (.error e)

theorem FieldsFollow.next {α β : Type} {x : StateT Stream (Except Error) α}
    {f : α → StateT Stream (Except Error) β} {s t : Stream} (first : FieldsFollow (x s) (x t))
    (rest : ∀ a s t, Copied s t → FieldsFollow (f a s) (f a t)) :
    FieldsFollow ((x >>= f) s) ((x >>= f) t) := by
  change FieldsFollow (x s >>= fun p => f p.1 p.2) (x t >>= fun p => f p.1 p.2)
  generalize x s = left at first ⊢
  generalize x t = right at first ⊢
  cases first with
  | ok copied => exact rest _ _ _ copied
  | error e => exact .error e

theorem FieldsFollow.ite {α : Type} {c : Prop} [Decidable c] {e : Error}
    {x : StateT Stream (Except Error) α} {s t : Stream} (rest : FieldsFollow (x s) (x t)) :
    FieldsFollow ((if c then (do (throw e : StateT Stream (Except Error) Unit); x) else x) s)
      ((if c then (do (throw e : StateT Stream (Except Error) Unit); x) else x) t) := by
  by_cases h : c
  · rw [if_pos h]
    exact .error e
  · rw [if_neg h]
    exact rest

theorem headerField_follows {s t : Stream} (copied : Copied s t) (width : Nat) :
    FieldsFollow (headerField width s) (headerField width t) := by
  have run := copied.readNat .big width
  unfold Stream.Follows at run
  unfold headerField
  generalize Stream.readNat .big width s = left at run ⊢
  generalize Stream.readNat .big width t = right at run ⊢
  cases run with
  | ok together =>
    obtain ⟨rfl, copied⟩ := together
    exact .ok copied
  | error => exact .error _

theorem parseHeader_follows {s t : Stream} (copied : Copied s t) (options : DecoderOptions) :
    FieldsFollow (parseHeader options s) (parseHeader options t) := by
  unfold parseHeader
  refine (headerField_follows copied 4).next fun width s t copied => ?_
  refine (headerField_follows copied 4).next fun height s t copied => ?_
  refine .ite ?_
  refine .ite ?_
  refine (headerField_follows copied 1).next fun depth s t copied => .ite ?_
  refine (headerField_follows copied 1).next fun code s t copied => ?_
  cases ColorType.ofCode? code with
  | none => exact .error _
  | some color =>
    refine (headerField_follows copied 1).next fun compression s t copied => .ite ?_
    refine (headerField_follows copied 1).next fun filtering s t copied => .ite ?_
    refine (headerField_follows copied 1).next fun interlacing s t copied => .ite ?_
    exact .ok copied

section

variable {r r' : Decoder} (copies : Copies r r') {c d : Chunk} (same : ChunkCopied c d)

include copies same

theorem takeHeader_follows :
    InStep Anything Copies (Equally Copies) (takeHeader c r) (takeHeader d r') := by
  unfold takeHeader
  refine (Reading.soFar_inStep copies).bind ?_
  rintro _ _ r r' ⟨rfl, rfl, copies⟩
  rw [← copies.found, ← same.length]
  refine .ite (fun _ => .stop trivial copies) fun _ => ?_
  refine .ite (fun _ => .stop trivial copies) fun _ => ?_
  have parsed := parseHeader_follows same.data r.found.options
  generalize parseHeader r.found.options c.data = left at parsed ⊢
  generalize parseHeader r.found.options d.data = right at parsed ⊢
  cases parsed with
  | error e => exact .error trivial copies
  | ok _ =>
    refine (Reading.note_inStep _ _ _ copies).next fun _ r r' copies => ?_
    refine (Reading.note_inStep _ _ _ copies).next fun _ r r' copies => ?_
    refine (Reading.note_inStep _ _ _ copies).next fun _ r r' copies => ?_
    refine (Reading.note_inStep _ _ _ copies).next fun _ r r' copies => ?_
    exact Reading.modifyFound_inStep copies (by rw [copies.found])

theorem takeData_follows :
    InStep Anything Copies (Equally Copies) (takeData c r) (takeData d r') := by
  unfold takeData
  refine (Reading.soFar_inStep copies).bind ?_
  rintro _ _ r r' ⟨rfl, rfl, copies⟩
  rw [← copies.found]
  refine .ite (fun _ => .stop trivial copies) fun _ => ?_
  have read := same.data.readRemaining
  unfold Stream.Follows at read
  generalize Stream.readRemaining c.data = left at read ⊢
  generalize Stream.readRemaining d.data = right at read ⊢
  cases read with
  | error => exact .error trivial copies
  | ok together =>
    obtain ⟨rfl, -⟩ := together
    exact Reading.modifyFound_inStep copies (by rw [copies.found])

theorem skipChunk_follows :
    InStep Anything Copies (Equally Copies) (skipChunk c r) (skipChunk d r') := by
  unfold skipChunk
  refine (Reading.soFar_inStep copies).bind ?_
  rintro _ _ r r' ⟨rfl, rfl, copies⟩
  rw [← copies.found, ← same.name, ← same.length, ← same.checksum]
  refine .ite (fun _ => .stop trivial copies) fun _ => ?_
  exact Reading.note_inStep _ _ _ copies

end

/-! ### The walk and the image -/

theorem walk_follows (rounds : Nat) {r r' : Decoder} (copies : Copies r r') :
    Follows (walk rounds) r r' := by
  induction rounds generalizing r r' with
  | zero => exact .pure copies ()
  | succ rounds ih =>
    unfold walk
    refine (Reading.get_inStep copies).bind ?_
    rintro r r' _ _ ⟨rfl, rfl, copies⟩
    rw [Stream.atEnd, Stream.atEnd, copies.stream.remaining_eq]
    refine .ite (fun _ => .pure copies ()) fun _ => ?_
    refine (readChunk_follows copies).bind ?_
    rintro c d r r' ⟨same, copies⟩
    rw [← same.name]
    cases ChunkKind.ofName c.name with
    | header => exact (takeHeader_follows copies same).next fun _ _ _ copies => ih copies
    | data => exact (takeData_follows copies same).next fun _ _ _ copies => ih copies
    | terminator => exact Reading.modifyFound_inStep copies (by rw [copies.found])
    | palette => exact (skipChunk_follows copies same).next fun _ _ _ copies => ih copies
    | unknown => exact (skipChunk_follows copies same).next fun _ _ _ copies => ih copies

theorem concludeWalk_follows {r r' : Decoder} (copies : Copies r r') :
    Follows concludeWalk r r' := by
  unfold Follows concludeWalk
  refine (Reading.soFar_inStep copies).bind ?_
  rintro _ _ r r' ⟨rfl, rfl, copies⟩
  rw [← copies.found]
  refine .ite (fun _ => .stop trivial copies) fun _ => ?_
  refine .ite (fun _ => .stop trivial copies) fun _ => ?_
  have finish {r r' : Decoder} (copies : Copies r r') :
      Follows (Reading.modifyFound fun w => { w with complete := true }) r r' :=
    Reading.modifyFound_inStep copies (by rw [copies.found])
  refine .ite (fun _ => ?_) fun _ => finish copies
  refine .ite (fun _ => .stop trivial copies) fun _ => ?_
  exact (Reading.note_inStep _ _ _ copies).next fun _ _ _ copies => finish copies

theorem decodeHeaders_follows {r r' : Decoder} (copies : Copies r r') :
    Follows decodeHeaders r r' := by
  unfold Follows
  cases complete : r.found.complete with
  | true =>
    have complete' : r'.found.complete = true := copies.found ▸ complete
    unfold decodeHeaders
    rw [bind_of_ok (Reading.soFar_eq_ok r), bind_of_ok (Reading.soFar_eq_ok r'), complete,
      complete']
    exact .pure copies ()
  | false =>
    rw [decodeHeaders_eq complete, decodeHeaders_eq (copies.found ▸ complete)]
    refine (readSignature_follows copies).next fun _ r r' copies => ?_
    refine (Reading.get_inStep copies).bind ?_
    rintro r r' _ _ ⟨rfl, rfl, copies⟩
    rw [copies.stream.remaining_eq]
    exact (walk_follows _ copies).next fun _ _ _ copies => concludeWalk_follows copies

theorem readFound_follows (inflate : Inflater) {r r' : Decoder} (copies : Copies r r') :
    Follows (readFound inflate) r r' := by
  unfold Follows
  rw [readFound_eq, readFound_eq, ← copies.found]
  cases imageOf inflate r.found with
  | error e => exact .error trivial copies
  | ok image => exact .pure copies image

theorem decode_follows (inflate : Inflater) {r r' : Decoder} (copies : Copies r r') :
    Follows (decode inflate) r r' := by
  unfold Follows
  rw [decode_eq]
  exact (decodeHeaders_follows copies).next fun _ _ _ copies =>
    readFound_follows inflate copies

theorem probe_follows {s t : Stream} (copied : Copied s t) : probe s = probe t := by
  have read := copied.whole.readExact signature.length
  unfold Stream.Follows at read
  rw [probe, probe, Stream.wholeSlice_eq, Stream.wholeSlice_eq]
  dsimp only
  generalize Stream.readExact signature.length (s.part 0 s.length) = left at read ⊢
  generalize Stream.readExact signature.length (t.part 0 t.length) = right at read ⊢
  cases read with
  | error => rfl
  | ok together =>
    obtain ⟨rfl, -⟩ := together
    rfl

end PackageAssets.Png
