import PackageAssets.Image.Basic
import PackageAssets.Proofs.Stream.InStep

/-!
# Requests to an image reader

The readers of image formats are asked for the headers or for the image.
-/
namespace PackageAssets

variable {ε σ : Type}

/-- What a reader of an image can be asked for. -/
inductive ImageRequest where
  | headers
  | image

/-- The answer to a request for the headers holds no image. -/
def ImageRequest.ask (headers : ReadingM ε σ Unit) (image : ReadingM ε σ Image) :
    ImageRequest → ReadingM ε σ (Option Image)
  | .headers => do
    headers
    return none
  | .image => do return some (← image)

theorem ImageRequest.ask_inStep {admitted : ε → Prop} {kept : Reading σ → Reading σ → Prop}
    {headers : ReadingM ε σ Unit} {image : ReadingM ε σ Image}
    (headersInStep : ∀ r r', kept r r' →
      InStep admitted kept (Equally kept) (headers r) (headers r'))
    (imageInStep : ∀ r r', kept r r' → InStep admitted kept (Equally kept) (image r) (image r'))
    (request : ImageRequest) (r r' : Reading σ) (together : kept r r') :
    InStep admitted kept (Equally kept) (ask headers image request r)
      (ask headers image request r') := by
  cases request with
  | headers => exact (headersInStep r r' together).next fun _ _ _ together => .pure together none
  | image =>
    exact (imageInStep r r' together).next fun image _ _ together => .pure together (some image)

end PackageAssets
