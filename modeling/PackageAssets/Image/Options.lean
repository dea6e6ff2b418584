import PackageAssets.Image.Color

/-!
# Options of readers and writers

Not every format uses every option: the limits hold for all, the others only
for PNG. Readers and writers default to the same channel order, so what was
written reads back unchanged.
-/
namespace PackageAssets

structure DecoderOptions where
  maxWidth : Nat := 131072
  maxHeight : Nat := 131072
  /-- Refuses unknown chunks that are needed to show the image, and a missing last chunk. -/
  strict : Bool := false
  confirmChecksums : Bool := true
  order : ChannelOrder := .bgra
  deriving DecidableEq, Repr

namespace DecoderOptions

def usual : DecoderOptions := {}

/-- Accepts whatever can be decoded. -/
def lenient : DecoderOptions := { confirmChecksums := false }

/-- Refuses anything out of the ordinary. -/
def strictest : DecoderOptions := { strict := true }

/-- Whether the limits refuse an image of this size. -/
def refuses (options : DecoderOptions) (width height : Nat) : Bool :=
  options.maxWidth < width || options.maxHeight < height

end DecoderOptions

structure EncoderOptions where
  order : ChannelOrder := .bgra
  /-- From 0 (store) to 9 (smallest). -/
  level : Nat := 1
  deriving DecidableEq, Repr

namespace EncoderOptions

def highestLevel : Nat := 9

def usual : EncoderOptions := {}

def withLevel (options : EncoderOptions) (level : Nat) : EncoderOptions :=
  { options with level := min level highestLevel }

end EncoderOptions

end PackageAssets
