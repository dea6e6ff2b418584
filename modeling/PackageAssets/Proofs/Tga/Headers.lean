import PackageAssets.Proofs.Stream.Reaching
import PackageAssets.Tga.Decoder

/-!
# The header of a TGA

A TGA starts with a header of fixed size. It is read exactly when it is there,
names an uncompressed image of a depth that can be read, and the image is not
empty and within the limits. Then its fields say where the image is.
-/
namespace PackageAssets.Tga

open Reading

def headerSize : Nat := 18

/-- A field of the header. -/
def fieldAt (bytes : List UInt8) (offset width : Nat) : Nat :=
  ByteOrder.little.readAt bytes offset width

/-- The bytes start with a header that can be read. -/
structure Readable (options : DecoderOptions) (bytes : List UInt8) : Prop where
  long : headerSize ≤ bytes.length
  mapType : fieldAt bytes 1 1 ≤ 1
  imageType : fieldAt bytes 2 1 = trueColor
  width : 0 < fieldAt bytes 12 2
  height : 0 < fieldAt bytes 14 2
  within : options.refuses (fieldAt bytes 12 2) (fieldAt bytes 14 2) = false
  depth : fieldAt bytes 16 1 = 24 ∨ fieldAt bytes 16 1 = 32

/-- What a header of a file that stands at `position` says. -/
def infoAt (position : Nat) (bytes : List UInt8) : Info where
  width := fieldAt bytes 12 2
  height := fieldAt bytes 14 2
  pixelDepth := fieldAt bytes 16 1
  bottomUp := fieldAt bytes 17 1 / 32 % 2 = 0
  pixelOffset := position + headerSize + fieldAt bytes 0 1 +
    colorMapBytes (fieldAt bytes 1 1) (fieldAt bytes 5 2) (fieldAt bytes 7 1)

theorem reaches_readField {β : Type} {reached : β → Decoder → Prop} {width : Nat}
    (positive : 0 < width) {next : Nat → DecoderM β} {r : Decoder} (sound : r.stream.Sound)
    (offset : Nat) :
    Reaches reached (readField width >>= next) (r.past offset) ↔
      offset + width ≤ r.stream.ahead.length ∧
        Reaches reached (next (fieldAt r.stream.ahead offset width)) (r.past (offset + width)) :=
  reaches_readNat positive sound offset

/-- The header is read exactly when it is one that can be, and its fields are found. -/
theorem reaches_decodeHeaders (reached : Stream → Option Info → Prop) {r : Decoder}
    (sound : r.stream.Sound) (fresh : r.found.info = none) :
    Reaches (fun _ t => reached t.stream t.found.info) decodeHeaders r ↔
      Readable r.found.options r.stream.ahead ∧
        reached (r.stream.seek (r.stream.position + headerSize))
          (some (infoAt r.stream.position r.stream.ahead)) := by
  have unread : ¬(r.past 0).found.info.isSome = true := by simp [fresh]
  have one : 0 < 1 := Nat.one_pos
  have two : 0 < 2 := Nat.two_pos
  change Reaches _ decodeHeaders (r.past 0) ↔ _
  unfold decodeHeaders
  rw [reaches_soFar, if_neg unread, reaches_readField one sound,
    reaches_readField one sound, reaches_readField one sound, reaches_check, reaches_check,
    reaches_readField two sound, reaches_readField two sound, reaches_readField one sound,
    reaches_readField two sound, reaches_readField two sound, reaches_readField two sound,
    reaches_readField two sound, reaches_readField one sound, reaches_readField one sound,
    reaches_check, reaches_check, reaches_soFar, reaches_check]
  simp only [reaches_ite, reaches_get, reaches_note, reaches_modifyFound, ite_self, found_past,
    position_past, Bool.not_eq_true, Nat.reduceAdd]
  constructor
  · rintro ⟨-, -, -, imageType, mapType, -, -, -, -, -, -, -, -, long, depth, filled, within, found⟩
    exact ⟨⟨long, by omega, by omega, by omega, by omega, within, by omega⟩, found⟩
  · rintro ⟨⟨long, mapType, imageType, width, height, within, depth⟩, found⟩
    simp only [headerSize] at long
    and_intros <;> first | assumption | omega

/-- Neither side of an image is beyond what its field can hold, so the usual limits let it pass. -/
theorem Readable.usual {options : DecoderOptions} {bytes : List UInt8}
    (readable : Readable options bytes) : Readable .usual bytes where
  long := readable.long
  mapType := readable.mapType
  imageType := readable.imageType
  width := readable.width
  height := readable.height
  within := by
    have width : fieldAt bytes 12 2 < 256 ^ 2 := ByteOrder.readAt_lt ..
    have height : fieldAt bytes 14 2 < 256 ^ 2 := ByteOrder.readAt_lt ..
    have limits : DecoderOptions.usual.maxWidth = 131072 ∧
        DecoderOptions.usual.maxHeight = 131072 := ⟨rfl, rfl⟩
    simp only [DecoderOptions.refuses, Bool.or_eq_false_iff, decide_eq_false_iff_not]
    omega
  depth := readable.depth

end PackageAssets.Tga
