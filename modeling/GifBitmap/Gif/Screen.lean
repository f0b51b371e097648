import GifBitmap.ColorTable

/-!
# The logical screen

The screen is the canvas on which the images of a GIF are placed.  One packed byte
of its descriptor holds the shape of the global color table and the color
resolution:

* bit 7: a global color table follows;
* bits 6 to 4: color resolution;
* bit 3: the table is sorted;
* bits 2 to 0: exponent of the table's length.
-/

namespace GifBitmap
namespace Gif

/-- The logical screen descriptor. -/
structure Screen where
  width : UInt16
  height : UInt16
  flags : UInt8
  /-- The index with which the canvas is filled. -/
  background : UInt8
  aspect : UInt8
  deriving Repr, DecidableEq

namespace Screen

/-- The screen whose fields are all zero. -/
def zero : Screen :=
  ⟨0, 0, 0, 0, 0⟩

/-- Bits per primary color of the picture the file was made from, less one. -/
def colorResolution (screen : Screen) : Nat :=
  screen.flags.toNat / 16 % 8

/-- The shape of the global color table. -/
def tableShape (screen : Screen) : TableShape where
  present := screen.flags.toNat.testBit 7
  sorted := screen.flags.toNat.testBit 3
  exponent := ⟨screen.flags.toNat % 8, Nat.mod_lt _ (by decide)⟩

/-- The number of pixels of the canvas. -/
def pixels (screen : Screen) : Nat :=
  screen.width.toNat * screen.height.toNat

end Screen
end Gif
end GifBitmap
