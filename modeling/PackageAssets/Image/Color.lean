import PackageAssets.Bytes.Order

/-!
# Colours

A pixel is one 32 bit cell with red, green, blue and alpha from the least to
the most significant byte. Files may store the three colour bytes of a pixel
the other way round; exchanging the first and the third is its own inverse.
-/
namespace PackageAssets

structure Color where
  red : UInt8
  green : UInt8
  blue : UInt8
  alpha : UInt8
  deriving DecidableEq, Repr

namespace Color

def bytes (c : Color) : List UInt8 := [c.red, c.green, c.blue, c.alpha]

def pack (c : Color) : UInt32 := UInt32.ofNat (ByteOrder.ofLittle c.bytes)

def unpack (cell : UInt32) : Color :=
  let n := cell.toNat
  ⟨UInt8.ofNat n, UInt8.ofNat (n / 256), UInt8.ofNat (n / 65536), UInt8.ofNat (n / 16777216)⟩

def solid (red green blue : UInt8) : Color := ⟨red, green, blue, 255⟩

end Color

/-- The order of the colour bytes of a pixel in a file. -/
inductive ChannelOrder where
  | rgba
  | bgra
  deriving DecidableEq, Repr

namespace ChannelOrder

/-- Red, green and blue, from three bytes in this order. -/
def toRgb : ChannelOrder → UInt8 → UInt8 → UInt8 → UInt8 × UInt8 × UInt8
  | rgba, first, second, third => (first, second, third)
  | bgra, first, second, third => (third, second, first)

/-- Three bytes in this order, from red, green and blue. -/
def ofRgb : ChannelOrder → UInt8 → UInt8 → UInt8 → List UInt8
  | rgba, red, green, blue => [red, green, blue]
  | bgra, red, green, blue => [blue, green, red]

end ChannelOrder

end PackageAssets
