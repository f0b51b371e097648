/-!
# Kinds of blocks

After the screen a GIF is a sequence of blocks, each of which begins with a byte
that names its kind.  An extension names its own kind in a second byte, the label.
-/

namespace GifBitmap
namespace Gif

def imageSeparator : UInt8 := 0x2C

/-- The byte before an extension. -/
def extensionIntroducer : UInt8 := 0x21

/-- The label of a graphic control extension. -/
def graphicControlLabel : UInt8 := 0xF9

/-- The number of bytes in the body of a graphic control extension. -/
def graphicControlBodySize : UInt8 := 4

/-- The kinds of extension that are passed over. -/
inductive Extension
  | plainText
  | comment
  | application
  /-- An extension with some other label. -/
  | unknown (label : UInt8)
  deriving Repr, DecidableEq

namespace Extension

def ofLabel (label : UInt8) : Extension :=
  if label = 0x01 then plainText
  else if label = 0xFE then comment
  else if label = 0xFF then application
  else unknown label

def label : Extension → UInt8
  | plainText => 0x01
  | comment => 0xFE
  | application => 0xFF
  | unknown label => label

/-- A label is found again in the kind it names. -/
@[simp]
theorem label_ofLabel (label : UInt8) : (ofLabel label).label = label := by
  unfold ofLabel
  split
  · simp_all [Extension.label]
  · split
    · simp_all [Extension.label]
    · split <;> simp_all [Extension.label]

end Extension
end Gif
end GifBitmap
