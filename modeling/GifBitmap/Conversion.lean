import GifBitmap.Gif.Decoder
import GifBitmap.Canvas
import GifBitmap.Bmp.Encoder

/-!
# Conversion

A conversion reads the first picture of a GIF, places it on its canvas and gives the
canvas to an encoder of bitmaps.  The whole bitmap is made before its first byte is
written (`prepare`), so a picture that cannot be converted leaves the sink untouched.
-/

namespace GifBitmap
namespace Conversion

/-- The byte counts of a conversion. -/
structure Statistics where
  /-- The number of bytes read. -/
  gifSize : Nat
  /-- The number of bytes written. -/
  bitmapSize : Nat
  deriving Repr, DecidableEq

/-- A conversion of which only the writing is left. -/
structure Prepared where
  gifSize : Nat
  bitmap : Bmp.Bitmap
  deriving Repr, DecidableEq

/-- The bitmap of a picture with the given color table. -/
def bitmapOf (picture : Gif.Picture) (table : ColorTable) : Bmp.Bitmap where
  width := picture.preamble.screen.width.toUInt32
  height := picture.preamble.screen.height.toUInt32
  indices := (Canvas.compose picture).indices
  table := table

/-- Notes that the image reaches beyond the screen, if it does. -/
def noteClipping (picture : Gif.Picture) (input : Input) : Input :=
  if Canvas.isClipped picture.preamble.screen picture.frame.image then
    input.note (.imageClipped picture.frame.image)
  else
    input

/-- Makes the bitmap of the first picture of an input. -/
def prepare (limit : Gif.PixelLimit) (input : Input) : Except Error Prepared × Input :=
  match Gif.decode limit input with
  | (.error failure, rest) => (.error failure, rest)
  | (.ok picture, rest) =>
      match picture.colorTable? with
      | none => (.error .missingColorTable, rest)
      | some table =>
          (.ok ⟨rest.consumed, bitmapOf picture table⟩, noteClipping picture rest)

/-- The byte counts of a conversion whose file was written. -/
def Prepared.statistics (prepared : Prepared) (written : Bmp.Written) : Statistics :=
  ⟨prepared.gifSize, written.size⟩

/-- The events that complete a conversion. -/
def completion (statistics : Statistics) (layout : Bmp.Layout) : List Event :=
  [.bitmapWritten layout statistics.bitmapSize,
    .converted statistics.gifSize statistics.bitmapSize]

/-- What a conversion leads to, and the state of both ends afterwards. -/
structure Outcome where
  result : Except Error Statistics
  source : Source
  sink : Sink
  events : Array Event

/-- Converts the first picture that a source holds, writing to a sink.  The encoder is given up
at the end. -/
def convert (limit : Gif.PixelLimit) (source : Source) (sink : Sink) : Outcome :=
  match prepare limit (.ofSource source) with
  | (.error failure, rest) => ⟨.error failure, rest.source, sink, rest.events⟩
  | (.ok prepared, rest) =>
      match (Bmp.Encoder.ofSink sink).encode prepared.bitmap with
      | (.error failure, last) => ⟨.error failure, rest.source, last.close, rest.events⟩
      | (.ok written, last) =>
          let statistics := prepared.statistics written
          ⟨.ok statistics, rest.source, last.close,
            rest.events ++ completion statistics written.layout⟩

end Conversion
end GifBitmap
