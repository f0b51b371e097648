import GifBitmap.Gif.Phase

/-!
# Decoding the first picture

Decoding runs through the phases of a GIF on an input.  Nothing behind the image data
is read, so the same input can be decoded again where the last picture ended
(`decodeTimes`).
-/

namespace GifBitmap
namespace Gif

/-- Reads an input from a phase on, up to the end of the first image. -/
def decodeFrom
    (limit : PixelLimit)
    (phase : Phase)
    (input : Input) :
    Except Error Picture × Input :=
  FieldReader.repeatUntil (Phase.step limit) (Phase.step_progresses limit) phase input

/-- Reads the first picture of a GIF from an input. -/
def decode (limit : PixelLimit) (input : Input) : Except Error Picture × Input :=
  decodeFrom limit .start input

/-- Reads pictures from an input, one behind the other and going on after failures.  Each
reading is given with the input that it leaves. -/
def decodeTimes (limit : PixelLimit) : Nat → Input → List (Except Error Picture × Input)
  | 0, _ => []
  | count + 1, input =>
      let reading := decode limit input
      reading :: decodeTimes limit count reading.2

end Gif
end GifBitmap
