import GifBitmap.ColorTable

/-!
# Image descriptors

An image descriptor places one image on the screen.  Its packed byte holds:

* bit 7: a local color table follows;
* bit 6: the rows are stored interlaced;
* bit 5: the table is sorted;
* bits 2 to 0: exponent of the table's length.
-/

namespace GifBitmap
namespace Gif

/-- The position and size of an image, and its packed byte. -/
structure ImageDescriptor where
  left : UInt16
  top : UInt16
  width : UInt16
  height : UInt16
  flags : UInt8
  deriving Repr, DecidableEq

namespace ImageDescriptor

/-- The descriptor whose fields are all zero. -/
def zero : ImageDescriptor :=
  ⟨0, 0, 0, 0, 0⟩

/-- Whether the rows are stored in the order of the four interlace passes. -/
def interlaced (image : ImageDescriptor) : Bool :=
  image.flags.toNat.testBit 6

/-- The shape of the local color table. -/
def tableShape (image : ImageDescriptor) : TableShape where
  present := image.flags.toNat.testBit 7
  sorted := image.flags.toNat.testBit 5
  exponent := ⟨image.flags.toNat % 8, Nat.mod_lt _ (by decide)⟩

/-- The number of pixels of the image. -/
def pixels (image : ImageDescriptor) : Nat :=
  image.width.toNat * image.height.toNat

end ImageDescriptor
end Gif
end GifBitmap
