import PackageAssets.Proofs.Format.InStep
import PackageAssets.Proofs.Psf.InStep
import PackageAssets.Proofs.Stream.Frame

/-!
# Files inside other files

A view of a frame and a copy of its bytes cannot be told apart by reading: not
by the operations of the cursors, nor by the probes and readers of the formats.
So a file that lies in a container is read as it would be on its own.
-/
namespace PackageAssets

namespace Reading

variable {ε σ α ρ : Type}

/-- The readers answer all requests alike, and find and note the same. -/
def Indistinguishable (ask : ρ → ReadingM ε σ α) (r r' : Reading σ) : Prop :=
  ∀ requests, (askAll ask requests r).1 = (askAll ask requests r').1 ∧
    (askAll ask requests r).2.found = (askAll ask requests r').2.found ∧
    (askAll ask requests r).2.notes = (askAll ask requests r').2.notes

theorem indistinguishable {admitted : ε → Prop} {streams : Stream → Stream → Prop}
    {finds : σ → σ → Prop} {ask : ρ → ReadingM ε σ α}
    (step : ∀ request r r', Alike streams finds r r' →
      InStep admitted (Alike streams finds) (Equally (Alike streams finds)) (ask request r)
        (ask request r'))
    (same : ∀ c d, finds c d → c = d) {r r' : Reading σ} (start : Alike streams finds r r') :
    Indistinguishable ask r r' := by
  intro requests
  obtain ⟨answers, together, -⟩ := askAll_inStep step requests start
  exact ⟨answers, same _ _ together.found, together.notes⟩

end Reading

section Formats

variable {v w : Stream} (view : Stream.SameView v w) (options : DecoderOptions)

include view

theorem Png.indistinguishable (inflate : Inflater) :
    Reading.Indistinguishable (ask inflate) (Decoder.start v options) (Decoder.start w options) :=
  Reading.indistinguishable (ask_inStep view.twins inflate) (fun _ _ found => found.same)
    (start_together view options)

theorem Bmp.indistinguishable :
    Reading.Indistinguishable ask (Decoder.start v options) (Decoder.start w options) :=
  Reading.indistinguishable (ask_inStep view.twins) (fun _ _ found => found.same)
    (start_together view options)

theorem Tga.indistinguishable :
    Reading.Indistinguishable ask (Decoder.start v options) (Decoder.start w options) :=
  Reading.indistinguishable (ask_inStep view.twins) (fun _ _ found => found.same)
    (start_together view options)

theorem Psf.indistinguishable :
    Reading.Indistinguishable ask (Decoder.start v) (Decoder.start w) :=
  Reading.indistinguishable (ask_inStep view.twins) (fun _ _ found => found)
    (start_together view)

end Formats

/--
The view of a frame reads like a copy of its bytes. Sessions on the read side have the same reports
and leave the same cursors, but for their windows, which lie further on by the start of the frame.
Probes and readers see no difference at all.
-/
theorem Frame.view_reads_like_copy (f : Frame) :
    (Stream.onSource f.source).slice (.included f.start) (.excluded f.stop) = .ok f.view ∧
    (∀ ops : List (Nat × Op), (∀ op ∈ ops, op.2.ReadSide) →
      Session.run ⟨[f.source], [⟨0, f.view.cursor⟩]⟩ ops =
        ((Session.run (.start f.copy.source) ops).1,
          f.session (Session.run (.start f.copy.source) ops).2)) ∧
    (Png.probe f.view = Png.probe f.copy ∧ Bmp.probe f.view = Bmp.probe f.copy ∧
      Tga.probe f.view = Tga.probe f.copy ∧ Psf.probe f.view = Psf.probe f.copy) ∧
    ∀ inflate options,
      Reading.Indistinguishable (Png.ask inflate) (Png.Decoder.start f.view options)
        (Png.Decoder.start f.copy options) ∧
      Reading.Indistinguishable Bmp.ask (Bmp.Decoder.start f.view options)
        (Bmp.Decoder.start f.copy options) ∧
      Reading.Indistinguishable Tga.ask (Tga.Decoder.start f.view options)
        (Tga.Decoder.start f.copy options) ∧
      Reading.Indistinguishable Psf.ask (Psf.Decoder.start f.view) (Psf.Decoder.start f.copy) := by
  have view : Stream.SameView f.view f.copy := Frame.shows_copy.view
  refine ⟨Frame.slice_eq, ?_, ⟨?_, ?_, ?_, ?_⟩, fun inflate options => ⟨?_, ?_, ?_, ?_⟩⟩
  · intro ops reads
    have start : f.Admits (.start f.copy.source) := Frame.admits_start
    have run := Frame.run_follows start reads
    exact Prod.ext run.same run.session
  · exact Png.probe_congr view
  · exact Bmp.probe_congr view
  · exact Tga.probe_congr view
  · exact Psf.probe_congr view
  · exact Png.indistinguishable view options inflate
  · exact Bmp.indistinguishable view options
  · exact Tga.indistinguishable view options
  · exact Psf.indistinguishable view

/-- Three bytes in the middle of five. -/
def Frame.middle : Frame where
  source := .ofBytes [9, 1, 2, 0xA0, 9]
  start := 1
  stop := 4
  inMemory := ⟨5, rfl⟩
  counted := by decide
  ordered := by decide
  inside := by decide

theorem Frame.view_reads_like_copy_middle :
    Session.run ⟨[Frame.middle.source], [⟨0, Frame.middle.view.cursor⟩]⟩
        [(0, .make (.slice (.included 1) .unbounded)),
          (1, .keepPosition [.act (.readVector 9), .act (.rewind 3)]),
          (1, .act (.readInt ⟨1, false, .big⟩)),
          (1, .act (.readBits .high 3)),
          (1, .act (.readExact 1))] =
      ([(.cursor 1, 0, 0),
        (.steps [(.bytes [2, 0xA0], 2, 0), (.failed .beforeStart, 2, 0)], 0, 0),
        (.number 2, 1, 0),
        (.number 5, 2, 5),
        (.failed (.notEnough 1 0), 2, 5)],
        ⟨[Frame.middle.source],
          [⟨0, .start (.slice 1 4)⟩, ⟨0, ⟨.slice 2 4, 2, ⟨0, 5⟩⟩⟩]⟩) := by
  have inner : ∀ op ∈ [Op.act (.readVector 9), .act (.rewind 3)], op.ReadSide :=
    List.forall_mem_cons.mpr ⟨.act trivial, List.forall_mem_singleton.mpr (.act trivial)⟩
  refine (Frame.middle.view_reads_like_copy.2.1 _ ?_).trans rfl
  intro op member
  simp only [List.mem_cons, List.not_mem_nil, or_false] at member
  rcases member with rfl | rfl | rfl | rfl | rfl
  · exact .make trivial
  · exact .keepPosition inner
  · exact .act trivial
  · exact .act trivial
  · exact .act trivial

end PackageAssets
