import PackageAssets.Format.Codec
import PackageAssets.Proofs.Bmp.InStep
import PackageAssets.Proofs.Png.InStep
import PackageAssets.Proofs.Tga.InStep

/-!
# Any format in step

What is done for data of any format starts from a view of the whole window, so
over windows that show the same bytes it yields the same, notes included, or
fails alike. Headers that were read always hold a size.
-/
namespace PackageAssets

/-- A failure of the data other than that its format is not known. -/
def OfKnownFormat (e : ImageError) : Prop := OfData ImageError.kind e ∧ e ≠ .unknownFormat

namespace Noted

/-- Readers in step yield the same, and what they yield is noted alike. -/
theorem ofReading_inStep {δ ε σ α : Type} {admitted : δ → Prop} {known : ε → Prop}
    {streams : Stream → Stream → Prop} {finds : σ → σ → Prop} {made : α → α → Prop} {wrap : δ → ε}
    (wraps : ∀ e, admitted e → known (wrap e)) {step : ReadingM δ σ α} {r r' : Reading σ}
    (run : InStep admitted (Reading.Alike streams finds)
      (fun a b r r' => made a b ∧ Reading.Alike streams finds r r') (step r) (step r'))
    (notes : List Note) :
    InStep known Eq (fun a b before after => made a b ∧ before = after)
      (ofReading wrap step r notes) (ofReading wrap step r' notes) := by
  unfold ofReading Reading.outcome
  generalize step r = left at run ⊢
  generalize step r' = right at run ⊢
  cases run with
  | ok together => exact .ok ⟨together.1, congrArg (notes ++ ·) together.2.notes⟩
  | error failure together =>
    exact .error (wraps _ failure) (congrArg (notes ++ ·) together.notes)

end Noted

namespace ImageFormat

variable {v w : Stream} (view : Stream.SameView v w)

include view

theorem wholeView_inStep (notes : List Note) :
    InStep OfKnownFormat Eq (fun v w before after => Stream.SameView v w ∧ before = after)
      (wholeView v notes) (wholeView w notes) := by
  rw [wholeView, wholeView, Stream.wholeSlice_eq, Stream.wholeSlice_eq]
  exact .ok ⟨view.whole, rfl⟩

theorem probe_congr (format : ImageFormat) : format.probe v = format.probe w := by
  cases format with
  | png => exact congrArg (·, []) (Png.probe_congr view)
  | bmp => exact congrArg (·, []) (Bmp.probe_congr view)
  | tga => exact Tga.probe_congr view

theorem firstOf_congr (formats : List ImageFormat) : firstOf v formats = firstOf w formats := by
  induction formats with
  | nil => rfl
  | cons format others ih =>
    rw [firstOf, firstOf, Stream.wholeSlice_eq, Stream.wholeSlice_eq]
    dsimp only
    rw [probe_congr view.whole format, ih]

theorem guess_congr : guess v = guess w := firstOf_congr view all

theorem decode_inStep (inflate : Png.Inflater) (format : ImageFormat) (options : DecoderOptions)
    (notes : List Note) :
    InStep OfKnownFormat Eq (Equally Eq) (format.decode inflate v options notes)
      (format.decode inflate w options notes) := by
  refine (wholeView_inStep view notes).bind ?_
  rintro v w notes _ ⟨view, rfl⟩
  cases format with
  | png =>
    have run := Png.decode_inStep view.twins (Png.start_together view options) inflate
    exact Noted.ofReading_inStep (fun _ failure => ⟨failure, nofun⟩) run notes
  | bmp =>
    have run := Bmp.decode_inStep view.twins (Bmp.start_together view options)
    exact Noted.ofReading_inStep (fun _ failure => ⟨failure, nofun⟩) run notes
  | tga =>
    have run := Tga.decode_inStep view.twins (Tga.start_together view options)
    exact Noted.ofReading_inStep (fun _ failure => ⟨failure, nofun⟩) run notes

theorem dimensions_inStep (format : ImageFormat) (options : DecoderOptions) (notes : List Note) :
    InStep OfKnownFormat Eq
      (fun size size' before after => (size = size' ∧ size.isSome) ∧ before = after)
      (format.dimensions v options notes) (format.dimensions w options notes) := by
  refine (wholeView_inStep view notes).bind ?_
  rintro v w notes _ ⟨view, rfl⟩
  cases format with
  | png =>
    have run := Png.dimensions_inStep view.twins (Png.start_together view options)
    exact Noted.ofReading_inStep (fun _ failure => ⟨failure, nofun⟩) run notes
  | bmp =>
    have run := Bmp.dimensions_inStep view.twins (Bmp.start_together view options)
    exact Noted.ofReading_inStep (fun _ failure => ⟨failure, nofun⟩) run notes
  | tga =>
    have run := Tga.dimensions_inStep view.twins (Tga.start_together view options)
    exact Noted.ofReading_inStep (fun _ failure => ⟨failure, nofun⟩) run notes

theorem readInfo_inStep (format : ImageFormat) (options : DecoderOptions) (notes : List Note) :
    InStep OfKnownFormat Eq (Equally Eq) (format.readInfo v options notes)
      (format.readInfo w options notes) := by
  refine (dimensions_inStep view format options notes).bind ?_
  rintro size _ notes _ ⟨⟨rfl, there⟩, rfl⟩
  obtain ⟨⟨width, height⟩, rfl⟩ := Option.isSome_iff_exists.mp there
  exact .ok ⟨rfl, rfl⟩

theorem decodeAny_inStep (inflate : Png.Inflater) (options : DecoderOptions)
    (notes : List Note) :
    InStep (OfData ImageError.kind) Eq (Equally Eq) (decodeAny inflate v options notes)
      (decodeAny inflate w options notes) := by
  unfold decodeAny
  rw [guess_congr view]
  obtain ⟨found, more⟩ := guess w
  cases found with
  | none => exact .error (ofData rfl) rfl
  | some format =>
    have run := (decode_inStep view inflate format options (notes ++ more)).weaken
      fun _ known => known.1
    refine run.bind ?_
    rintro image _ notes _ ⟨rfl, rfl⟩
    exact .ok ⟨rfl, rfl⟩

end ImageFormat

end PackageAssets
