import GifBitmap.Gif.Screen
import GifBitmap.Gif.ImageDescriptor
import GifBitmap.Gif.GraphicControl

/-!
# The first picture of a file

What a GIF holds up to the end of its first image, in two parts: the preamble,
which belongs to the whole file, and the frame, which belongs to the image.
-/

namespace GifBitmap
namespace Gif

/-- The index stream of an image, with the code size from which it was decoded. -/
structure ImageData where
  minCodeSize : UInt8
  indices : Array UInt8
  deriving Repr, DecidableEq

namespace ImageData

/-- Image data without any index and with code size zero. -/
def empty : ImageData :=
  ⟨0, #[]⟩

end ImageData

/-- The part of a file before its first frame. -/
structure Preamble where
  /-- The three bytes of the version. -/
  version : Bytes
  screen : Screen
  globalTable : Option ColorTable
  deriving Repr, DecidableEq

/-- One image with all that describes it. -/
structure Frame where
  control : Option GraphicControl
  image : ImageDescriptor
  localTable : Option ColorTable
  data : ImageData
  deriving Repr, DecidableEq

namespace Frame

/-- The color table of a frame: a local table overrides the global one, even when empty. -/
def colorTable? (frame : Frame) (preamble : Preamble) : Option ColorTable :=
  frame.localTable.or preamble.globalTable

end Frame

/-- A preamble and the frame after it. -/
structure Picture where
  preamble : Preamble
  frame : Frame
  deriving Repr, DecidableEq

namespace Picture

/-- The color table of the picture's frame. -/
def colorTable? (picture : Picture) : Option ColorTable :=
  picture.frame.colorTable? picture.preamble

end Picture
end Gif
end GifBitmap
