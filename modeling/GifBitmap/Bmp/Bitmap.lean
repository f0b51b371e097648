import GifBitmap.Bmp.Layout
import GifBitmap.ColorTable

/-!
# Bitmap files

A bitmap is a picture of color indices with its color table.  `encode` gives the
bytes of its file: rows stand from top to bottom, which the format marks by a
negative height, and colors are stored as blue, green, red and a zero byte.

Main facts:
* `length_fileHeader`, `length_infoHeader`, `length_colorEntries`: the parts before the
  rows have the sizes that the layout gives them.
-/

namespace GifBitmap
namespace Bmp

/-- A picture of color indices, row by row, with its color table. -/
structure Bitmap where
  width : UInt32
  height : UInt32
  indices : Array UInt8
  table : ColorTable
  deriving Repr, DecidableEq

/-- The file of a bitmap with the layout it has. -/
structure Encoding where
  layout : Layout
  bytes : Bytes
  deriving Repr, DecidableEq

/-- A number that fits a signed 32-bit field, or the failure that it does not. -/
def signedField (value : UInt32) : Except Error Int :=
  if value.toNat < 0x80000000 then .ok value.toNat else .error .numberOutOfRange

/-- A signed number as four bytes in two's complement. -/
def signedBytes (value : Int) : Bytes :=
  littleEndian 4 (value % 0x100000000).toNat

def fileHeader (fileSize pixelOffset : UInt32) : Bytes :=
  [0x42, 0x4D] ++
    littleEndian 4 fileSize.toNat ++
    littleEndian 4 0 ++
    littleEndian 4 pixelOffset.toNat

/-- The information header: one plane of eight bits, no compression, no resolution, and
no statement on the size of the rows or on how many colors matter. -/
def infoHeader (width height : Int) (colors : UInt32) : Bytes :=
  littleEndian 4 infoHeaderSize ++
    signedBytes width ++
    signedBytes height ++
    littleEndian 2 1 ++
    littleEndian 2 8 ++
    littleEndian 4 0 ++
    littleEndian 4 0 ++
    signedBytes 0 ++
    signedBytes 0 ++
    littleEndian 4 colors.toNat ++
    littleEndian 4 0

def colorEntry (color : Color) : Bytes :=
  [color.blue, color.green, color.red, 0]

@[simp]
theorem length_signedBytes (value : Int) : (signedBytes value).length = 4 :=
  length_littleEndian 4 _

@[simp]
theorem length_fileHeader (fileSize pixelOffset : UInt32) :
    (fileHeader fileSize pixelOffset).length = fileHeaderSize := by
  simp [fileHeader, fileHeaderSize]

@[simp]
theorem length_infoHeader (width height : Int) (colors : UInt32) :
    (infoHeader width height colors).length = infoHeaderSize := by
  simp [infoHeader, infoHeaderSize]

@[simp]
theorem length_colorEntries (colors : List Color) :
    (colors.flatMap colorEntry).length = colorEntrySize * colors.length := by
  induction colors with
  | nil => rfl
  | cons color colors ih =>
      simp only [List.flatMap_cons, List.length_append, ih, colorEntry, List.length_cons,
        colorEntrySize, List.length_nil]
      omega

namespace Bitmap

def pixels (bitmap : Bitmap) : Nat :=
  bitmap.width.toNat * bitmap.height.toNat

/-- One row of indices, filled up with zeros. -/
def row (bitmap : Bitmap) (padding y : Nat) : Bytes :=
  let width := bitmap.width.toNat
  (bitmap.indices.extract (y * width) (y * width + width)).toList ++ List.replicate padding 0

/-- All rows, from top to bottom; none if there is no pixel. -/
def rows (bitmap : Bitmap) (padding : Nat) : Bytes :=
  if bitmap.pixels = 0 then
    []
  else
    (List.range bitmap.height.toNat).flatMap (bitmap.row padding)

/-- The file of a bitmap.  There has to be an index for every pixel, and the sizes have to pass
the checks of the layout; indices beyond the color table are written as they are. -/
def encode (bitmap : Bitmap) : Except Error Encoding := do
  let layout ← Layout.ofSizes bitmap.width bitmap.height bitmap.table.length
  if bitmap.indices.size = bitmap.pixels then
    let fileSize ← layout.fileSize
    let pixelOffset ← layout.pixelOffset
    let width ← signedField bitmap.width
    let height ← signedField bitmap.height
    return {
      layout
      bytes :=
        fileHeader fileSize pixelOffset ++
          infoHeader width (-height) layout.colors ++
          bitmap.table.colors.flatMap colorEntry ++
          bitmap.rows layout.rowPadding }
  else
    throw (.stream .indexCountMismatch)

end Bitmap

end Bmp
end GifBitmap
