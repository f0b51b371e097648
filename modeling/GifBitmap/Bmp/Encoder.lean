import GifBitmap.Bmp.Bitmap
import GifBitmap.Sink.Buffer

/-!
# Writing files through a buffer

An encoder writes bitmap files, one behind the other, to one sink.  It hands over each file
part by part: the two headers, the color table, and every row of indices with its filling
behind it.  The parts go through a buffer, so the sink is offered bytes that belong to several
parts together, or the front of a part and later the rest.
-/

namespace GifBitmap
namespace Bmp

/-- The lengths of the rows and of their fillings, in turn; none if there is no pixel. -/
def Layout.rowLengths (layout : Layout) : List Nat :=
  if layout.width.toNat * layout.height.toNat = 0 then
    []
  else
    (List.replicate layout.height.toNat [layout.width.toNat, layout.rowPadding]).flatten

/-- The lengths of the parts in which a file is written. -/
def Layout.partLengths (layout : Layout) : List Nat :=
  fileHeaderSize :: infoHeaderSize :: (colorEntrySize * layout.colors.toNat) :: layout.rowLengths

/-- The parts of the given lengths that stand one behind the other in front of some bytes. -/
def cutInto : List Nat → Bytes → List Bytes
  | [], _ => []
  | length :: lengths, bytes => bytes.take length :: cutInto lengths (bytes.drop length)

def Encoding.parts (encoding : Encoding) : List Bytes :=
  cutInto encoding.layout.partLengths encoding.bytes

/-- What is known of a file that was written. -/
structure Written where
  layout : Layout
  /-- The number of bytes that the sink accepted. -/
  size : Nat
  deriving Repr, DecidableEq

/-- A writer of bitmap files. -/
structure Encoder where
  target : BufferedSink
  deriving Repr, DecidableEq

namespace Encoder

def ofSink (sink : Sink) : Encoder :=
  ⟨.ofSink sink⟩

/-- Writes a file part by part, and gives the number of bytes that the sink has accepted
meanwhile. -/
def deliver (encoder : Encoder) (encoding : Encoding) : Except Error Written × Encoder :=
  match encoder.target.putAll encoding.parts with
  | (.error failure, next) => (.error (.stream failure), ⟨next⟩)
  | (.ok (), next) =>
      match next.flush with
      | (.error failure, last) => (.error (.stream failure), ⟨last⟩)
      | (.ok (), last) =>
          (.ok ⟨encoding.layout, last.count - encoder.target.count⟩, ⟨last⟩)

/-- Writes a bitmap.  Nothing is written if its file cannot be made. -/
def encode (encoder : Encoder) (bitmap : Bitmap) : Except Error Written × Encoder :=
  match bitmap.encode with
  | .error failure => (.error failure, encoder)
  | .ok encoding => encoder.deliver encoding

/-- Writes bitmaps one behind the other, going on after failures, and gives the result of each. -/
def encodeAll (encoder : Encoder) : List Bitmap → List (Except Error Written) × Encoder
  | [] => ([], encoder)
  | bitmap :: bitmaps =>
      let writing := encoder.encode bitmap
      let following := writing.2.encodeAll bitmaps
      (writing.1 :: following.1, following.2)

/-- The sink after the encoder was given up. -/
def close (encoder : Encoder) : Sink :=
  encoder.target.close

end Encoder
end Bmp
end GifBitmap
